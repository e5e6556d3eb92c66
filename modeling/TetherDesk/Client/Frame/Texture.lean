import TetherDesk.Client.Frame.Records

namespace TetherDesk.Client

open TetherDesk.Codec

-- tex_, by column and row.
abbrev Texture := Nat → Nat → UInt32

def Rect.Contains (rc : Rect) (X Y : Nat) : Prop := rc.x ≤ X ∧ X < rc.x + rc.w ∧ rc.y ≤ Y ∧ Y < rc.y + rc.h

instance (rc : Rect) (X Y : Nat) : Decidable (rc.Contains X Y) := inferInstanceAs (Decidable (_ ∧ _))

-- SDL_UpdateTexture(tex, &rc, fb + src, pitch * 4), which copies the rectangle.
def sdlUpdateTexture (tex : Texture) (rc : Rect) (fb : Pixels) (src pitch : Nat) : Texture := fun X Y =>
  if rc.Contains X Y then fb (src + (Y - rc.y) * pitch + (X - rc.x)) else tex X Y

-- minx, miny, maxx and maxy of App::on_frame as a rectangle.
def boundingBox (rw rh : Nat) (rects : List Rect) : Rect :=
  let minx := rects.foldl (fun m rc => min m rc.x) rw
  let miny := rects.foldl (fun m rc => min m rc.y) rh
  let maxx := rects.foldl (fun m rc => max m (rc.x + rc.w)) 0
  let maxy := rects.foldl (fun m rc => max m (rc.y + rc.h)) 0
  ⟨minx, miny, maxx - minx, maxy - miny⟩

-- Upload changed regions: individually when few, one bounding box when many.
def uploadRects (rw rh : Nat) (rects : List Rect) (fb : Pixels) (tex : Texture) : Texture :=
  if rects.length > 48 then
    let u := boundingBox rw rh rects
    sdlUpdateTexture tex u fb (u.y * rw + u.x) rw
  else rects.foldl (fun tex rc => sdlUpdateTexture tex rc fb (rc.y * rw + rc.x) rw) tex

-- fb_ with the texture it is shown on.
structure Display where
  remote : Remote
  texture : Texture

def Display.onFrame (d : Display) (r : Reader) : Display :=
  match Client.onFrame d.remote r with
  | none => d
  | some f =>
      { remote := f.remote
        texture := uploadRects d.remote.w d.remote.h f.rects f.remote.fb d.texture }

-- The texture holds the pixels of fb_.
def Display.Agrees (d : Display) : Prop :=
  ∀ X < d.remote.w, ∀ Y < d.remote.h, d.texture X Y = d.remote.fb (Y * d.remote.w + X)

-- The pixels that are copied to the texture.
def Uploaded (rw rh : Nat) (rects : List Rect) (X Y : Nat) : Prop :=
  if rects.length > 48 then (boundingBox rw rh rects).Contains X Y else ∃ rc ∈ rects, rc.Contains X Y

-- The record that ends the loop has put no pixel into fb_ that is new there
-- and is not uploaded with the records before it.
def StrayPixelsShown (d : Display) (r : Reader) : Prop :=
  d.remote.tex = true → ∀ t, (parsedRecords d.remote.w d.remote.h r).2 = some t →
    t.Fits d.remote.w d.remote.h → ∀ y x c, (y, x, c) ∈ strayPixels t.enc t.payload t.w t.h →
      Uploaded d.remote.w d.remote.h ((parsedRecords d.remote.w d.remote.h r).1.map (·.rect)) (t.x + x) (t.y + y) ∨
        d.remote.fb ((t.y + y) * d.remote.w + (t.x + x)) = c

theorem sdlUpdateTexture_at (tex : Texture) (rc : Rect) (fb : Pixels) (rw X Y : Nat) :
    sdlUpdateTexture tex rc fb (rc.y * rw + rc.x) rw X Y =
      if rc.Contains X Y then fb (Y * rw + X) else tex X Y := by
  unfold sdlUpdateTexture
  by_cases h : rc.Contains X Y
  · have hx := h.1
    have hrows : rc.y * rw + (Y - rc.y) * rw = Y * rw := by rw [← Nat.add_mul, Nat.add_sub_cancel' h.2.2.1]
    rw [if_pos h, if_pos h, show rc.y * rw + rc.x + (Y - rc.y) * rw + (X - rc.x) = Y * rw + X by omega]
  · rw [if_neg h, if_neg h]

open Classical in
theorem uploadRects_at (rw rh : Nat) (rects : List Rect) (fb : Pixels) (tex : Texture) (X Y : Nat) :
    uploadRects rw rh rects fb tex X Y =
      if Uploaded rw rh rects X Y then fb (Y * rw + X) else tex X Y := by
  unfold uploadRects Uploaded
  by_cases hmany : rects.length > 48
  · simp only [if_pos hmany]
    exact sdlUpdateTexture_at tex _ fb rw X Y
  · simp only [if_neg hmany]
    clear hmany
    induction rects generalizing tex with
    | nil => simp
    | cons rc rects ih =>
        rw [List.foldl_cons, ih, sdlUpdateTexture_at]
        by_cases hrest : ∃ rc ∈ rects, rc.Contains X Y
        · obtain ⟨rc', hmem, hin⟩ := hrest
          rw [if_pos ⟨rc', hmem, hin⟩, if_pos ⟨rc', List.mem_cons_of_mem _ hmem, hin⟩]
        · rw [if_neg hrest]
          by_cases hin : rc.Contains X Y
          · rw [if_pos hin, if_pos ⟨rc, List.mem_cons_self, hin⟩]
          · rw [if_neg hin, if_neg]
            rintro ⟨rc', hmem, hin'⟩
            rcases List.mem_cons.mp hmem with rfl | hmem
            · exact hin hin'
            · exact hrest ⟨rc', hmem, hin'⟩

theorem foldl_min_le (f : Rect → Nat) (rects : List Rect) (m : Nat) :
    rects.foldl (fun m rc => min m (f rc)) m ≤ m ∧ ∀ rc ∈ rects, rects.foldl (fun m rc => min m (f rc)) m ≤
      f rc := by
  induction rects generalizing m with
  | nil => exact ⟨le_rfl, nofun⟩
  | cons rc rects ih =>
      obtain ⟨hle, hall⟩ := ih (min m (f rc))
      rw [List.foldl_cons]
      refine ⟨by omega, fun rc' hrc' => ?_⟩
      rcases List.mem_cons.mp hrc' with rfl | hrc'
      · omega
      · exact hall rc' hrc'

theorem le_foldl_max (f : Rect → Nat) (rects : List Rect) (m : Nat) :
    m ≤ rects.foldl (fun m rc => max m (f rc)) m ∧
      ∀ rc ∈ rects, f rc ≤ rects.foldl (fun m rc => max m (f rc)) m := by
  induction rects generalizing m with
  | nil => exact ⟨le_rfl, nofun⟩
  | cons rc rects ih =>
      obtain ⟨hle, hall⟩ := ih (max m (f rc))
      rw [List.foldl_cons]
      refine ⟨by omega, fun rc' hrc' => ?_⟩
      rcases List.mem_cons.mp hrc' with rfl | hrc'
      · omega
      · exact hall rc' hrc'

-- Either way every rectangle drawn is uploaded.
theorem uploaded_of_mem (rw rh : Nat) (rects : List Rect) (rc : Rect) (hmem : rc ∈ rects) (X Y : Nat)
    (hin : rc.Contains X Y) : Uploaded rw rh rects X Y := by
  unfold Uploaded
  by_cases hmany : rects.length > 48
  · rw [if_pos hmany]
    obtain ⟨hx, hx', hy, hy'⟩ := hin
    have hminx := (foldl_min_le (·.x) rects rw).2 rc hmem
    have hminy := (foldl_min_le (·.y) rects rh).2 rc hmem
    have hmaxx := (le_foldl_max (fun rc => rc.x + rc.w) rects 0).2 rc hmem
    have hmaxy := (le_foldl_max (fun rc => rc.y + rc.h) rects 0).2 rc hmem
    simp only [Rect.Contains, boundingBox]
    omega
  · rw [if_neg hmany]
    exact ⟨rc, hmem, hin⟩

-- Two pixels of a picture rw wide share an address only when they are the same.
theorem address_inj {rw X Y X' Y' : Nat} (hX : X < rw) (hX' : X' < rw) (h : Y * rw + X = Y' * rw + X') :
    X = X' ∧ Y = Y' := by
  have hmod := congrArg (· % rw) h
  have hdiv := congrArg (· / rw) h
  have hpos : 0 < rw := by omega
  simp only [Nat.mul_comm _ rw, Nat.mul_add_mod, Nat.mod_eq_of_lt hX, Nat.mod_eq_of_lt hX'] at hmod
  simp only [Nat.mul_comm _ rw, Nat.mul_add_div hpos, Nat.div_eq_of_lt hX, Nat.div_eq_of_lt hX'] at hdiv
  omega

-- Pixels outside the accepted records are as they were.
theorem foldl_drawRecord_outside (rw rh : Nat) (good : List TileRecord) (fb : Pixels) (X Y : Nat) (hX : X < rw)
    (hout : ∀ t ∈ good, ¬t.rect.Contains X Y) : good.foldl (drawRecord rw rh) fb (Y * rw + X) =
      fb (Y * rw + X) := by
  induction good generalizing fb with
  | nil => rfl
  | cons t good ih =>
      rw [List.foldl_cons, ih _ fun s hs => hout s (List.mem_cons_of_mem _ hs), drawRecord]
      by_cases hfits : t.Fits rw rh
      · have hwide := hfits.1
        rw [if_pos hfits]
        refine rdDecodeTile_outside _ _ _ _ _ _ fb (by omega) _ fun y hy x hx haddr => ?_
        have hsame : Y * rw + X = (t.y + y) * rw + (t.x + x) := by rw [haddr, Nat.add_mul]; omega
        obtain ⟨rfl, rfl⟩ := address_inj hX (by omega) hsame
        exact hout t List.mem_cons_self
          ⟨by simp only [TileRecord.rect]; omega, by simp only [TileRecord.rect]; omega,
          by simp only [TileRecord.rect]; omega, by simp only [TileRecord.rect]; omega⟩
      · rw [if_neg hfits]

theorem rdGetU16_err (r : Reader) (h : (rdGetU16 r).2.err = true) : (rdGetU16 r).1 = 0 := by
  unfold rdGetU16 rdGetBytes at h ⊢
  by_cases hshort : r.err ∨ r.rest.length < 2
  · rw [if_pos hshort]
  · rw [if_neg hshort] at h
    exact absurd (Or.inl h) hshort

-- A message whose header cannot be read is one without records.
theorem Display.onFrame_eq (d : Display) (r : Reader) (htex : d.remote.tex = true) :
    d.onFrame r =
      (let (good, bad) := parsedRecords d.remote.w d.remote.h r
       let fb := (good ++ bad.toList).foldl (drawRecord d.remote.w d.remote.h) d.remote.fb
       { remote := { d.remote with fb := fb }
         texture := uploadRects d.remote.w d.remote.h (good.map (·.rect)) fb d.texture }) := by
  unfold Display.onFrame Client.onFrame parsedRecords
  dsimp only
  by_cases herr : (rdGetU16 (rdGetU8 (rdGetU32 r).2).2).2.err = true
  · rw [if_pos (Or.inl herr), rdGetU16_err _ herr]
    rfl
  · have hdrawn := frameTiles_drawn d.remote.w d.remote.h (rdGetU16 (rdGetU8 (rdGetU32 r).2).2).1
      (rdGetU16 (rdGetU8 (rdGetU32 r).2).2).2 d.remote.fb
    rw [if_neg (by simp [herr, htex])]
    generalize frameTiles d.remote.w d.remote.h (rdGetU16 (rdGetU8 (rdGetU32 r).2).2).1
      (rdGetU16 (rdGetU8 (rdGetU32 r).2).2).2 d.remote.fb = out at hdrawn ⊢
    generalize frameRecords d.remote.w d.remote.h (rdGetU16 (rdGetU8 (rdGetU32 r).2).2).1
      (rdGetU16 (rdGetU8 (rdGetU32 r).2).2).2 = records at hdrawn ⊢
    obtain ⟨flag, rects, fb⟩ := out
    obtain ⟨good, bad⟩ := records
    cases hdrawn
    rfl

-- What the last record leaves at a pixel: one of its stray pixels, or nothing.
theorem drawRecord_refused (rw rh : Nat) (fb : Pixels) (t : TileRecord) (hbad : ¬t.Accepted rw rh) :
    (t.Fits rw rh → ∀ y x c, (y, x, c) ∈ strayPixels t.enc t.payload t.w t.h → y < t.h ∧ x < t.w ∧
      drawRecord rw rh fb t ((t.y + y) * rw + (t.x + x)) = c) ∧
    ∀ a, (t.Fits rw rh → ∀ y x c, (y, x, c) ∈ strayPixels t.enc t.payload t.w t.h →
      a ≠ (t.y + y) * rw + (t.x + x)) → drawRecord rw rh fb t a = fb a := by
  have haddr : ∀ y x, t.y * rw + t.x + y * rw + x = (t.y + y) * rw + (t.x + x) := by
    intro y x
    rw [Nat.add_mul]
    omega
  by_cases hfits : t.Fits rw rh
  · have hrc : (t.decode rw fb).1 ≠ 0 := fun h => hbad ((t.accepted_iff rw rh fb).mpr ⟨hfits, h⟩)
    have hwide := hfits.1
    obtain ⟨hdrawn, hkept⟩ := rdDecodeTile_refused t.enc t.payload t.w t.h (t.y * rw + t.x) rw fb (by omega) hrc
    rw [drawRecord_of_fits rw rh fb t hfits]
    refine ⟨fun _ y x c hc => ?_, fun a ha => hkept a fun y x c hc => ?_⟩
    · obtain ⟨hy, hx, hcolour⟩ := hdrawn y x c hc
      exact ⟨hy, hx, haddr y x ▸ hcolour⟩
    · rw [haddr]
      exact ha hfits y x c hc
  · rw [drawRecord, if_neg hfits]
    exact ⟨fun h => absurd h hfits, fun _ _ => rfl⟩

-- With fb_ and the texture alike before a FRAME message they are alike after
-- it, except for pixels of a refused PALETTE record that the upload leaves out.
theorem frame_texture_agrees_iff (d : Display) (r : Reader) (h : d.Agrees) :
    (d.onFrame r).Agrees ↔ StrayPixelsShown d r := by
  by_cases htex : d.remote.tex = true
  · have hgood := frameRecords_good d.remote.w d.remote.h (rdGetU16 (rdGetU8 (rdGetU32 r).2).2).1
      (rdGetU16 (rdGetU8 (rdGetU32 r).2).2).2
    change (∀ t ∈ (parsedRecords d.remote.w d.remote.h r).1, _) ∧
      ∀ t, (parsedRecords d.remote.w d.remote.h r).2 = some t → _ at hgood
    rw [d.onFrame_eq r htex, StrayPixelsShown]
    generalize parsedRecords d.remote.w d.remote.h r = records at hgood ⊢
    obtain ⟨good, bad⟩ := records
    obtain ⟨hgood, hbad⟩ := hgood
    dsimp only at hgood hbad ⊢
    -- a pixel that is not uploaded lies outside the accepted records
    have hout : ∀ X < d.remote.w, ∀ Y, ¬Uploaded d.remote.w d.remote.h (good.map (·.rect)) X Y →
        good.foldl (drawRecord d.remote.w d.remote.h) d.remote.fb (Y * d.remote.w + X) =
          d.remote.fb (Y * d.remote.w + X) := by
      intro X hX Y hup
      refine foldl_drawRecord_outside _ _ good _ X Y hX fun t ht hin => hup ?_
      exact uploaded_of_mem _ _ _ t.rect (List.mem_map_of_mem ht) X Y hin
    have hpixel : ∀ X < d.remote.w, ∀ Y < d.remote.h,
        uploadRects d.remote.w d.remote.h (good.map (·.rect))
          ((good ++ bad.toList).foldl (drawRecord d.remote.w d.remote.h) d.remote.fb) d.texture X Y =
            (good ++ bad.toList).foldl (drawRecord d.remote.w d.remote.h) d.remote.fb (Y * d.remote.w + X) ↔
        (Uploaded d.remote.w d.remote.h (good.map (·.rect)) X Y ∨
          d.remote.fb (Y * d.remote.w + X) =
            (good ++ bad.toList).foldl (drawRecord d.remote.w d.remote.h) d.remote.fb (Y * d.remote.w + X)) := by
      intro X hX Y hY
      rw [uploadRects_at]
      by_cases hup : Uploaded d.remote.w d.remote.h (good.map (·.rect)) X Y
      · simp [hup]
      · simp [hup, h X hX Y hY]
    cases bad with
    | none =>
        refine ⟨fun _ _ t ht => (nomatch ht), fun _ X hX Y hY => (hpixel X hX Y hY).mpr ?_⟩
        by_cases hup : Uploaded d.remote.w d.remote.h (good.map (·.rect)) X Y
        · exact .inl hup
        · refine .inr ?_
          rw [Option.toList_none, List.append_nil, hout X hX Y hup]
    | some t =>
        obtain ⟨hstray, hkept⟩ := drawRecord_refused d.remote.w d.remote.h
          (good.foldl (drawRecord d.remote.w d.remote.h) d.remote.fb) t (hbad t rfl)
        have hlast : (good ++ (some t).toList).foldl (drawRecord d.remote.w d.remote.h) d.remote.fb =
            drawRecord d.remote.w d.remote.h (good.foldl (drawRecord d.remote.w d.remote.h) d.remote.fb) t := by
          rw [Option.toList_some, List.foldl_append]
          rfl
        rw [hlast] at hpixel ⊢
        constructor
        · rintro hagrees - s ⟨⟩ hfits y x c hc
          obtain ⟨hy, hx, hcolour⟩ := hstray hfits y x c hc
          have hwide := hfits.1
          have htall := hfits.2
          refine ((hpixel (t.x + x) (by omega) (t.y + y) (by omega)).mp
            (hagrees (t.x + x) (by dsimp only; omega) (t.y + y) (by dsimp only; omega))).imp id fun hsame => ?_
          rw [hsame, hcolour]
        · intro hshown X hX Y hY
          change X < d.remote.w at hX
          refine (hpixel X hX Y hY).mpr ?_
          by_cases hup : Uploaded d.remote.w d.remote.h (good.map (·.rect)) X Y
          · exact .inl hup
          · refine .inr ?_
            by_cases hdrawn : t.Fits d.remote.w d.remote.h ∧ ∃ y x c,
                (y, x, c) ∈ strayPixels t.enc t.payload t.w t.h ∧ X = t.x + x ∧ Y = t.y + y
            · obtain ⟨hfits, y, x, c, hc, rfl, rfl⟩ := hdrawn
              rw [(hstray hfits y x c hc).2.2]
              exact (hshown htex t rfl hfits y x c hc).resolve_left hup
            · rw [hkept _ fun hfits y x c hc haddr => ?_, hout X hX Y hup]
              have hwide := hfits.1
              obtain ⟨hy, hx, _⟩ := hstray hfits y x c hc
              obtain ⟨hX', hY'⟩ := address_inj hX (by omega) haddr
              exact hdrawn ⟨hfits, y, x, c, hc, hX', hY'⟩
  · have hnone : d.onFrame r = d := by
      unfold Display.onFrame Client.onFrame
      dsimp only
      rw [if_pos (Or.inr (by simpa using htex))]
    rw [hnone]
    exact ⟨fun _ ht => absurd ht htex, fun _ => h⟩

-- A 2 x 1 PALETTE record with one colour, red; bit 6 of the packed byte is the
-- index of its second pixel.
def redFrame (packed : UInt8) : Bytes :=
  le32 7 ++ [0] ++ le16 1 ++ le16 0 ++ le16 0 ++ le16 2 ++ le16 1 ++ [UInt8.ofNat RD_ENC_PALETTE] ++
    putBlob [0, 255, 0, 0, 0x10, packed]

def blankDisplay : Display :=
  { remote := resizeRemote ⟨0, 0, fun _ => 0, false⟩ 2 1 true
    texture := fun _ _ => 0xFF000000 }

theorem blankDisplay_agrees : blankDisplay.Agrees := fun _ _ _ _ => rfl

-- The first pixel is red in fb_ and stays black on the texture.
theorem refused_frame_not_shown :
    blankDisplay.Agrees ∧
      (blankDisplay.onFrame (rdReaderInit (redFrame 0x40))).remote.fb 0 = 0xFFFF0000 ∧
      (blankDisplay.onFrame (rdReaderInit (redFrame 0x40))).texture 0 0 = 0xFF000000 ∧
      ¬(blankDisplay.onFrame (rdReaderInit (redFrame 0x40))).Agrees := by
  have hpixels : (blankDisplay.onFrame (rdReaderInit (redFrame 0x40))).remote.fb 0 = 0xFFFF0000 ∧
      (blankDisplay.onFrame (rdReaderInit (redFrame 0x40))).texture 0 0 = 0xFF000000 ∧
      (blankDisplay.onFrame (rdReaderInit (redFrame 0x40))).remote.w = 2 ∧
      (blankDisplay.onFrame (rdReaderInit (redFrame 0x40))).remote.h = 1 := by
    decide
  obtain ⟨hfb, htexture, hw, hh⟩ := hpixels
  refine ⟨blankDisplay_agrees, hfb, htexture, fun hagrees => ?_⟩
  have hsame := hagrees 0 (by rw [hw]; decide) 0 (by rw [hh]; decide)
  rw [Nat.zero_mul, htexture, hfb] at hsame
  exact absurd hsame (by decide)

theorem frame_texture_agrees_red :
    blankDisplay.Agrees ∧ (blankDisplay.onFrame (rdReaderInit (redFrame 0))).Agrees := by
  have hnone : (parsedRecords 2 1 (rdReaderInit (redFrame 0))).2.isNone = true := by decide
  refine ⟨blankDisplay_agrees, (frame_texture_agrees_iff blankDisplay _ blankDisplay_agrees).mpr ?_⟩
  intro _ t ht
  have hlast : (parsedRecords 2 1 (rdReaderInit (redFrame 0))).2 = some t := ht
  rw [hlast] at hnone
  exact absurd hnone Bool.false_ne_true

end TetherDesk.Client
