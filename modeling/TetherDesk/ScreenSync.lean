import TetherDesk.Client.Frame
import TetherDesk.Host.Encoder.Theorems
import TetherDesk.Host.Screen
import TetherDesk.Lib.Transition
import TetherDesk.Reader.Theorems

namespace TetherDesk

open TetherDesk.Codec TetherDesk.Host TetherDesk.Client TetherDesk.Lib

-- The frames the protocol can carry.
structure FrameFits (f : Frame) : Prop where
  width : 1 ≤ f.width ∧ f.width ≤ 65535
  height : 1 ≤ f.height ∧ f.height ≤ 65535
  stride : 4 * f.width ≤ f.stride
  tiles : tileTotal f.width f.height ≤ 65535

def drawnRect (f : Frame) (k : Nat) : Rect := ⟨(f.rect k).x, (f.rect k).y, (f.rect k).w, (f.rect k).h⟩

-- fb_ after drawing a record.
def drawTile (f : Frame) (fb : Pixels) (p : SentTile) : Pixels :=
  let r := f.rect p.tile
  paint (r.y * f.width + r.x) f.width r.w r.h (shownPixel (f.pixels.drop (f.srcAt p.tile)) f.stride p.q) fb

theorem byteAt_drop (p : Bytes) (n i : Nat) : byteAt (p.drop n) i = byteAt p (n + i) := by
  simp [byteAt, List.getD_eq_getElem?_getD]

theorem shownPixel_congr {p p' : Bytes} {stride stride' y y' x x' : Nat} (q : Int)
    (h : ∀ b < 3, byteAt p (y * stride + 4 * x + b) = byteAt p' (y' * stride' + 4 * x' + b)) :
    shownPixel p stride q y x = shownPixel p' stride' q y' x' := by
  have h₀ := h 0 (by omega)
  have h₁ := h 1 (by omega)
  have h₂ := h 2 (by omega)
  simp only [Nat.add_zero] at h₀
  simp only [shownPixel, quantisedPixel, h₀, h₁, h₂]

-- The viewer's pixel (X, Y) after one record: the tile's own pixels change.
theorem drawTile_at (f : Frame) (fb : Pixels) (p : SentTile) (hk : p.tile < tileTotal f.width f.height)
    (X Y : Nat) (hX : X < f.width) (hY : Y < f.height) :
    drawTile f fb p (Y * f.width + X) =
      if tileOf f.width X Y = p.tile then shownPixel f.pixels f.stride p.q Y X else fb (Y * f.width + X) := by
  have hin := f.rect_in hk
  unfold drawTile
  rw [paint_at _ _ _ _ _ _ _ _ _ hin.right hX]
  by_cases htile : tileOf f.width X Y = p.tile
  · have hrect := (f.tileOf_iff hX hY).mp htile
    rw [if_pos hrect, if_pos htile]
    apply shownPixel_congr
    intro b _
    rw [byteAt_drop]
    congr 1
    have hrow : (f.rect p.tile).y * f.stride + (Y - (f.rect p.tile).y) * f.stride = Y * f.stride := by
      rw [← Nat.add_mul, Nat.add_sub_cancel' hrect.2.2.1]
    have hcol : (f.rect p.tile).x ≤ X := hrect.1
    unfold Frame.srcAt
    omega
  · rw [if_neg fun h => htile ((f.tileOf_iff hX hY).mpr h), if_neg htile]

theorem drawTiles_unsent (f : Frame) (recs : List SentTile) (fb : Pixels)
    (hbound : ∀ p ∈ recs, p.tile < tileTotal f.width f.height) (X Y : Nat) (hX : X < f.width)
    (hY : Y < f.height) (h : tileOf f.width X Y ∉ recs.map (·.tile)) :
    recs.foldl (drawTile f) fb (Y * f.width + X) = fb (Y * f.width + X) := by
  induction recs generalizing fb with
  | nil => rfl
  | cons p recs ih =>
      rw [List.map_cons, List.mem_cons, not_or] at h
      rw [List.foldl_cons, ih _ (fun x hx => hbound x (List.mem_cons_of_mem _ hx)) h.2,
        drawTile_at f fb p (hbound p List.mem_cons_self) X Y hX hY, if_neg h.1]

theorem drawTiles_sent (f : Frame) (recs : List SentTile) (fb : Pixels)
    (hbound : ∀ p ∈ recs, p.tile < tileTotal f.width f.height) (hnodup : (recs.map (·.tile)).Nodup)
    {p : SentTile} (hp : p ∈ recs) (X Y : Nat) (hX : X < f.width) (hY : Y < f.height)
    (h : tileOf f.width X Y = p.tile) :
    recs.foldl (drawTile f) fb (Y * f.width + X) = shownPixel f.pixels f.stride p.q Y X := by
  induction recs generalizing fb with
  | nil => cases hp
  | cons x recs ih =>
      rw [List.map_cons, List.nodup_cons] at hnodup
      have htail : ∀ x ∈ recs, x.tile < tileTotal f.width f.height :=
        fun x hx => hbound x (List.mem_cons_of_mem _ hx)
      rw [List.foldl_cons]
      rcases List.mem_cons.mp hp with rfl | hp
      · rw [drawTiles_unsent f recs _ htail X Y hX hY (h ▸ hnodup.1),
          drawTile_at f fb _ (hbound _ List.mem_cons_self) X Y hX hY, if_pos h]
      · exact ih _ htail hnodup.2 hp

theorem tileRecord_bytes (f : Frame) (k q : Nat) (rest : Bytes) :
    tileRecord f k q ++ rest =
      putU16 (f.rect k).x ++ (putU16 (f.rect k).y ++ (putU16 (f.rect k).w ++ (putU16 (f.rect k).h ++
        (putU8 (rdEncodeTile (f.pixels.drop (f.srcAt k)) f.stride (f.rect k).w (f.rect k).h q).1 ++
          (putU32 (rdEncodeTile (f.pixels.drop (f.srcAt k)) f.stride (f.rect k).w (f.rect k).h q).2.length ++
            ((rdEncodeTile (f.pixels.drop (f.srcAt k)) f.stride (f.rect k).w (f.rect k).h q).2 ++ rest)))))) := by
  simp only [tileRecord_eq, List.append_assoc]

-- The viewer reads the records back one by one and rejects none.
theorem frameTiles_records (f : Frame) (hf : FrameFits f) (recs : List SentTile)
    (hbound : ∀ p ∈ recs, p.tile < tileTotal f.width f.height) (fb : Pixels) :
    frameTiles f.width f.height recs.length ⟨recs.flatMap fun p => tileRecord f p.tile p.q, false⟩ fb =
      (false, (recs.map (·.tile)).map (drawnRect f), recs.foldl (drawTile f) fb) := by
  induction recs generalizing fb with
  | nil => rfl
  | cons p recs ih =>
      obtain ⟨hw₁, hw₂, hh₁, hh₂, hright, hbottom⟩ := f.rect_in (hbound p List.mem_cons_self)
      have hwide := hf.width.2
      have htall := hf.height.2
      have hsize : (f.rect p.tile).w * (f.rect p.tile).h ≤ 64 * 64 := Nat.mul_le_mul hw₂ hh₂
      have hlen := encodeTile_length (f.pixels.drop (f.srcAt p.tile)) f.stride (f.rect p.tile).w
        (f.rect p.tile).h p.q
      have hdec := decode_encodeTile (f.pixels.drop (f.srcAt p.tile)) f.stride (f.rect p.tile).w
        (f.rect p.tile).h p.q ((f.rect p.tile).y * f.width + (f.rect p.tile).x) f.width fb ⟨hw₁, hw₂⟩
        ⟨hh₁, hh₂⟩ (by omega)
      rw [List.flatMap_cons, tileRecord_bytes, List.length_cons, frameTiles]
      generalize rdEncodeTile (f.pixels.drop (f.srcAt p.tile)) f.stride (f.rect p.tile).w (f.rect p.tile).h
        p.q = enc at hlen hdec ⊢
      rw [rdGetU16_putU16 _ (by omega)]
      dsimp only
      rw [rdGetU16_putU16 _ (by omega)]
      dsimp only
      rw [rdGetU16_putU16 _ (by omega)]
      dsimp only
      rw [rdGetU16_putU16 _ (by omega)]
      dsimp only
      rw [rdGetU8_putU8 _ (by omega)]
      dsimp only
      rw [rdGetBlob_put _ _ (by omega)]
      dsimp only
      rw [if_neg (by simp; omega), Option.getD_some, hdec]
      dsimp only
      rw [if_neg (by simp), ih fun x hx => hbound x (List.mem_cons_of_mem _ hx)]
      rfl

theorem drawnRect_nodup (f : Frame) (tiles : List Nat) (hbound : ∀ k ∈ tiles, k < tileTotal f.width f.height)
    (hnodup : tiles.Nodup) : (tiles.map (drawnRect f)).Nodup := by
  refine (List.nodup_map_iff_inj_on hnodup).mpr fun k hk k' hk' hrect => ?_
  have hsame : f.rect k = f.rect k' := by
    rw [drawnRect, drawnRect, Rect.mk.injEq] at hrect
    exact TileRect.ext hrect.1 hrect.2.1 hrect.2.2.1 hrect.2.2.2
  -- the top left pixel of the rectangle lies in both tiles
  obtain ⟨hw, -, hh, -, hright, hbottom⟩ := f.rect_in (hbound k' hk')
  have hcorner : ∀ j, f.rect j = f.rect k' → tileOf f.width (f.rect k').x (f.rect k').y = j := by
    intro j hj
    refine (f.tileOf_iff (by omega) (by omega)).mpr ?_
    rw [hj]
    omega
  exact (hcorner k hsame).symm.trans (hcorner k' rfl)

-- What App::on_frame makes of the message of an encoded frame.
theorem onFrame_frameMessage (f : Frame) (hf : FrameFits f) (recs : List SentTile)
    (hbound : ∀ p ∈ recs, p.tile < tileTotal f.width f.height) (hcount : recs.length < 2 ^ 16)
    (viewer : Remote) (hw : viewer.w = f.width) (hh : viewer.h = f.height) (htex : viewer.tex = true)
    (id : Nat) (hid : id < 2 ^ 32) (full : Bool) :
    let r := rdGetU8 (rdReaderInit
      (frameMessage id full recs.length (recs.flatMap fun p => tileRecord f p.tile p.q)))
    r.1 = RD_S_FRAME ∧ onFrame viewer r.2 = some ⟨id, false, (recs.map (·.tile)).map (drawnRect f),
      { viewer with fb := recs.foldl (drawTile f) viewer.fb }⟩ := by
  have hflag : (if full then RD_FRAME_FULL else 0) < 2 ^ 8 := by cases full <;> decide
  simp only [rdReaderInit, frameMessage_eq, List.append_assoc]
  rw [rdGetU8_putU8 RD_S_FRAME (by decide)]
  refine ⟨rfl, ?_⟩
  dsimp only
  rw [onFrame, rdGetU32_putU32 _ hid]
  dsimp only
  rw [rdGetU8_putU8 _ hflag]
  dsimp only
  rw [rdGetU16_putU16 _ hcount]
  dsimp only
  rw [if_neg (by simp [htex]), hw, hh, frameTiles_records f hf recs hbound]

-- A picture as the viewer shows it: tile k at quality tq[k].
structure Shows (width height : Nat) (pixels : Bytes) (stride : Nat) (tq : List UInt8) (viewer : Remote) :
    Prop where
  wide : viewer.w = width
  tall : viewer.h = height
  tex : viewer.tex = true
  pixel : ∀ X < width, ∀ Y < height, viewer.fb (Y * width + X) =
    shownPixel pixels stride (tq.getD (tileOf width X Y) 0).toNat Y X

-- A frame to encode and the viewer it is for.
structure Exchange where
  f : Frame
  fits : FrameFits f
  shadow : Bytes
  shadow_length : shadow.length = f.width * 4 * f.height
  full : Bool
  quality : Nat
  quality_le : quality ≤ 3
  tileQ : List UInt8
  budget : Int
  threads : Nat
  viewer : Remote
  wide : viewer.w = f.width
  tall : viewer.h = f.height
  tex : viewer.tex = true
  start : full = false → Shows f.width f.height shadow (f.width * 4)
    (sizedTileQ (tileTotal f.width f.height) tileQ) viewer
  frameId : Nat
  frameId_lt : frameId < 2 ^ 32

namespace Exchange

variable (x : Exchange)

def total : Nat := tileTotal x.f.width x.f.height
def tq₀ : List UInt8 := sizedTileQ x.total x.tileQ

def encode (schedule : List Nat) : Option Encoded :=
  Host.encode x.f x.shadow x.full x.quality (some x.tileQ) x.budget (x.threads + 1) schedule

def message (r : Encoded) : Bytes := frameMessage x.frameId x.full r.tiles r.out

-- The viewer once the message, if there is one, has been applied.
def after (r : Encoded) : Remote := if r.tiles = 0 then x.viewer else x.viewer.receive (x.message r)

variable {x} {r : Encoded} {recs : List SentTile}

theorem tiles_bound (h : SentAs x.f x.shadow x.full x.quality x.budget x.tq₀ recs r) : recs.length < 2 ^ 16 := by
  have hsub : (recs.map (·.tile)).Subperm (List.range x.total) := by
    refine List.subperm_of_subset h.nodup fun k hk => ?_
    obtain ⟨p, hp, rfl⟩ := List.mem_map.mp hk
    exact List.mem_range.mpr (h.bound p hp)
  have hle := hsub.length_le
  rw [List.length_map, List.length_range] at hle
  have := x.fits.tiles
  unfold total at hle
  omega

theorem onFrame_message (h : SentAs x.f x.shadow x.full x.quality x.budget x.tq₀ recs r) :
    (rdGetU8 (rdReaderInit (x.message r))).1 = RD_S_FRAME ∧
    onFrame x.viewer (rdGetU8 (rdReaderInit (x.message r))).2 = some ⟨x.frameId, false,
      (recs.map (·.tile)).map (drawnRect x.f), { x.viewer with fb := recs.foldl (drawTile x.f) x.viewer.fb }⟩ := by
  rw [message, h.tiles, h.out]
  exact onFrame_frameMessage x.f x.fits recs h.bound (tiles_bound h) x.viewer x.wide x.tall x.tex x.frameId
    x.frameId_lt x.full

theorem after_eq (h : SentAs x.f x.shadow x.full x.quality x.budget x.tq₀ recs r) :
    x.after r = { x.viewer with fb := recs.foldl (drawTile x.f) x.viewer.fb } := by
  have hmessage := onFrame_message h
  unfold after
  by_cases hzero : r.tiles = 0
  · rw [if_pos hzero]
    have : recs = [] := List.length_eq_zero_iff.mp (h.tiles ▸ hzero)
    subst this
    rfl
  · rw [if_neg hzero, Remote.receive]
    simp only [hmessage.1, hmessage.2]
    rw [if_neg (by decide), if_pos trivial]

theorem shadowByte_start (hclean : x.full = false) (X Y : Nat) (hX : X < x.f.width) (hY : Y < x.f.height)
    (hsame : ∀ b < 4, shadowByte x.f x.shadow X Y b = frameByte x.f X Y b) :
    x.viewer.fb (Y * x.f.width + X) =
      shownPixel x.f.pixels x.f.stride (x.tq₀.getD (tileOf x.f.width X Y) 0).toNat Y X := by
  rw [(x.start hclean).pixel X hX Y hY]
  apply shownPixel_congr
  intro b hb
  have h := hsame b (by omega)
  unfold shadowByte frameByte at h
  rw [show Y * (x.f.width * 4) + 4 * X + b = Y * (x.f.width * 4) + (X * 4 + b) by omega, h]
  congr 1
  omega

theorem after_shows (h : SentAs x.f x.shadow x.full x.quality x.budget x.tq₀ recs r) :
    ∃ tq, r.tileQ = some tq ∧ tq.length = x.total ∧
      Shows x.f.width x.f.height x.f.pixels x.f.stride tq (x.after r) := by
  obtain ⟨tq, htq, hlen, hsent, hkept⟩ := h.tileQ
  refine ⟨tq, htq, hlen, ?_⟩
  rw [after_eq h]
  refine ⟨x.wide, x.tall, x.tex, fun X hX Y hY => ?_⟩
  dsimp only
  by_cases hk : tileOf x.f.width X Y ∈ recs.map (·.tile)
  · obtain ⟨p, hp, hpk⟩ := List.mem_map.mp hk
    have hq : p.q < 2 ^ 8 := by
      have := x.quality_le
      rcases h.kinds p hp with hkind | hkind <;> omega
    rw [drawTiles_sent x.f recs _ h.bound h.nodup hp X Y hX hY hpk.symm, ← hpk, hsent p hp, UInt8.toNat_ofNat',
      Nat.mod_eq_of_lt hq]
  · -- not sent, so the tile is clean and keeps its quality
    have hclean : tileDirty x.f x.shadow x.full (tileOf x.f.width X Y) = false := by
      rw [← Bool.not_eq_true]
      exact fun hd => hk (h.dirty _ (tileOf_lt hX hY) hd)
    have hfull : x.full = false := by
      rw [tileDirty, Bool.or_eq_false_iff] at hclean
      exact hclean.1
    rw [drawTiles_unsent x.f recs _ h.bound X Y hX hY hk, hkept _ hk]
    exact shadowByte_start hfull X Y hX hY fun b hb =>
      tileDirty_false x.f x.shadow x.full _ hclean X Y b hX hY hb rfl

theorem count_refined (h : SentAs x.f x.shadow x.full x.quality x.budget x.tq₀ recs r) :
    r.refined = min x.budget.toNat ((List.range x.total).countP (refinable x.f x.shadow x.full x.tq₀)) := by
  have hdirty : ((recs.map (·.tile)).filter (tileDirty x.f x.shadow x.full)).Perm
      ((List.range x.total).filter (tileDirty x.f x.shadow x.full)) := by
    refine (List.perm_ext_iff_of_nodup (h.nodup.filter _) (List.nodup_range.filter _)).mpr fun k => ?_
    simp only [List.mem_filter, List.mem_range]
    constructor
    · rintro ⟨hk, hd⟩
      obtain ⟨p, hp, rfl⟩ := List.mem_map.mp hk
      exact ⟨h.bound p hp, hd⟩
    · rintro ⟨hk, hd⟩
      exact ⟨h.dirty k hk hd, hd⟩
  have hcount : recs.countP (fun p => tileDirty x.f x.shadow x.full p.tile) =
      (List.range x.total).countP (tileDirty x.f x.shadow x.full) := by
    have := hdirty.length_eq
    rwa [← List.countP_eq_length_filter, ← List.countP_eq_length_filter, List.countP_map] at this
  -- each record counts once, as dirty or as refined
  have hsplit : ∀ l : List SentTile, (∀ p ∈ l, p ∈ recs) →
      l.length = l.countP (fun p => tileDirty x.f x.shadow x.full p.tile) + (l.map (·.refined)).sum := by
    intro l
    induction l with
    | nil => simp
    | cons p l ih =>
        intro hl
        have ih := ih fun y hy => hl y (List.mem_cons_of_mem _ hy)
        rw [List.length_cons, List.countP_cons, List.map_cons, List.sum_cons]
        rcases h.kinds p (hl p List.mem_cons_self) with ⟨hd, -, hr⟩ | ⟨href, -, hr⟩
        · rw [if_pos hd, hr]
          omega
        · rw [if_neg (by simp [(refinable_iff.mp href).1]), hr]
          omega
  have hlen := hsplit recs fun _ hp => hp
  have hall := h.count
  rw [h.refined]
  unfold total at hcount ⊢
  omega

end Exchange

end TetherDesk
