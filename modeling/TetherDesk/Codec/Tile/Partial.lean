import TetherDesk.Codec.Tile.RoundTrip

namespace TetherDesk.Codec

-- The pixels of a PALETTE payload that passes the length checks; none where the
-- index lies outside the palette.
def palettePixels (p : Bytes) (w h : Nat) : Option (Nat → Nat → Option UInt32) :=
  if p.length < 1 then none
  else
    let np := (byteAt p 0).toNat + 1
    if p.length < 1 + np * 3 then none
    else
      match rdLzDecompress (p.drop (1 + np * 3)) (rowBytes w (palBpp np) * h) with
      | none => none
      | some packed =>
          if packed.length ≠ rowBytes w (palBpp np) * h then none
          else
            some fun y x =>
              let i := (unpackIndex (palBpp np) (packed.drop (y * rowBytes w (palBpp np))) x).toNat
              if i ≥ np then none else some (palColour p i)

-- The pixels drawn before the first one without a colour.
def drawnBefore (px : Nat → Nat → Option UInt32) : List (Nat × Nat) → List (Nat × Nat × UInt32)
  | [] => []
  | (y, x) :: rest =>
      match px y x with
      | none => []
      | some c => (y, x, c) :: drawnBefore px rest

-- What a payload that rd_decode_tile refuses has drawn by then: only a PALETTE
-- payload is refused in the middle of a tile.
def strayPixels (enc : Nat) (p : Bytes) (w h : Nat) : List (Nat × Nat × UInt32) :=
  if (w = 0 ∨ h = 0 ∨ w > RD_TILE ∨ h > RD_TILE) ∨ enc ≠ RD_ENC_PALETTE then []
  else
    match palettePixels p w h with
    | none => []
    | some px => drawnBefore px (window w h)

-- rd_decode_tile refuses the payload before it draws, or draws pixel after
-- pixel.
theorem rdDecodeTile_cases (enc : Nat) (p : Bytes) (w h : Nat) :
    (∀ dst ds fb, rdDecodeTile enc p w h dst ds fb = (-1, fb)) ∧ strayPixels enc p w h = [] ∨
    ((1 ≤ w ∧ w ≤ RD_TILE) ∧ (1 ≤ h ∧ h ≤ RD_TILE)) ∧
      ((∃ colour : Nat → Nat → UInt32, ∀ dst ds fb, rdDecodeTile enc p w h dst ds fb =
          blit dst ds (fun y x => some (colour y x)) (window w h) fb) ∨
        ∃ px, strayPixels enc p w h = drawnBefore px (window w h) ∧
          ∀ dst ds fb, rdDecodeTile enc p w h dst ds fb = blit dst ds px (window w h) fb) := by
  unfold rdDecodeTile strayPixels palettePixels
  by_cases hsize : w = 0 ∨ h = 0 ∨ w > RD_TILE ∨ h > RD_TILE
  · exact .inl ⟨fun _ _ _ => if_pos hsize, if_pos (.inl hsize)⟩
  · simp only [if_neg hsize]
    by_cases hsolid : enc = RD_ENC_SOLID
    · simp only [if_pos hsolid]
      have hstray : (w = 0 ∨ h = 0 ∨ w > RD_TILE ∨ h > RD_TILE) ∨ enc ≠ RD_ENC_PALETTE :=
        .inr (by rw [hsolid]; decide)
      by_cases hlen : p.length ≠ 3
      · exact .inl ⟨fun _ _ _ => if_pos hlen, if_pos hstray⟩
      · exact .inr ⟨by omega, .inl ⟨_, fun _ _ _ => if_neg hlen⟩⟩
    simp only [if_neg hsolid]
    by_cases hraw : enc = RD_ENC_RAW
    · simp only [if_pos hraw]
      have hstray : (w = 0 ∨ h = 0 ∨ w > RD_TILE ∨ h > RD_TILE) ∨ enc ≠ RD_ENC_PALETTE :=
        .inr (by rw [hraw]; decide)
      by_cases hlen : p.length ≠ w * h * 3
      · exact .inl ⟨fun _ _ _ => if_pos hlen, if_pos hstray⟩
      · exact .inr ⟨by omega, .inl ⟨_, fun _ _ _ => if_neg hlen⟩⟩
    simp only [if_neg hraw]
    by_cases hpalette : enc = RD_ENC_PALETTE
    · have hstray : ¬((w = 0 ∨ h = 0 ∨ w > RD_TILE ∨ h > RD_TILE) ∨ enc ≠ RD_ENC_PALETTE) := by tauto
      simp only [if_pos hpalette, if_neg hstray]
      by_cases hempty : p.length < 1
      · simp only [if_pos hempty]
        exact .inl ⟨fun _ _ _ => by trivial, by trivial⟩
      simp only [if_neg hempty]
      by_cases hshort : p.length < 1 + ((byteAt p 0).toNat + 1) * 3
      · simp only [if_pos hshort]
        exact .inl ⟨fun _ _ _ => by trivial, by trivial⟩
      simp only [if_neg hshort]
      cases rdLzDecompress (p.drop (1 + ((byteAt p 0).toNat + 1) * 3))
          (rowBytes w (palBpp ((byteAt p 0).toNat + 1)) * h) with
      | none => exact .inl ⟨fun _ _ _ => by trivial, by trivial⟩
      | some packed =>
          by_cases hgot : packed.length ≠ rowBytes w (palBpp ((byteAt p 0).toNat + 1)) * h
          · simp only [if_pos hgot]
            exact .inl ⟨fun _ _ _ => by trivial, by trivial⟩
          · simp only [if_neg hgot]
            exact .inr ⟨by omega, .inr ⟨_, rfl, fun _ _ _ => rfl⟩⟩
    have hstray : (w = 0 ∨ h = 0 ∨ w > RD_TILE ∨ h > RD_TILE) ∨ enc ≠ RD_ENC_PALETTE := .inr hpalette
    simp only [if_neg hpalette, if_pos hstray]
    by_cases hzrgb : enc = RD_ENC_ZRGB
    · simp only [if_pos hzrgb]
      cases rdLzDecompress p (w * h * 3) with
      | none => exact .inl ⟨fun _ _ _ => by trivial, by trivial⟩
      | some res =>
          by_cases hgot : res.length ≠ w * h * 3
          · simp only [if_pos hgot]
            exact .inl ⟨fun _ _ _ => by trivial, by trivial⟩
          · simp only [if_neg hgot]
            exact .inr ⟨by omega, .inl ⟨_, fun _ _ _ => rfl⟩⟩
    · simp only [if_neg hzrgb]
      exact .inl ⟨fun _ _ _ => by trivial, by trivial⟩

-- The loop stops where the colours do, whatever it draws on.
theorem blit_result (dst ds dst' ds' : Nat) (px : Nat → Nat → Option UInt32) (coords : List (Nat × Nat))
    (fb fb' : Pixels) : (blit dst ds px coords fb).1 = (blit dst' ds' px coords fb').1 := by
  induction coords generalizing fb fb' with
  | nil => rfl
  | cons c rest ih =>
      obtain ⟨y, x⟩ := c
      simp only [blit]
      cases px y x with
      | none => rfl
      | some colour => exact ih _ _

theorem mem_drawnBefore {px : Nat → Nat → Option UInt32} {coords : List (Nat × Nat)} {y x : Nat} {c : UInt32}
    (h : (y, x, c) ∈ drawnBefore px coords) : (y, x) ∈ coords := by
  induction coords with
  | nil => cases h
  | cons d rest ih =>
      obtain ⟨y', x'⟩ := d
      simp only [drawnBefore] at h
      cases hpx : px y' x' with
      | none =>
          rw [hpx] at h
          cases h
      | some colour =>
          rw [hpx] at h
          rcases List.mem_cons.mp h with heq | hrest
          · cases heq
            exact List.mem_cons_self
          · exact List.mem_cons_of_mem _ (ih hrest)

-- Each pixel drawn keeps its colour and no other address changes.
theorem blit_drawn (dst ds : Nat) (px : Nat → Nat → Option UInt32) (coords : List (Nat × Nat)) (fb : Pixels)
    (hinj : coords.Pairwise fun c d => dst + c.1 * ds + c.2 ≠ dst + d.1 * ds + d.2) :
    (∀ y x c, (y, x, c) ∈ drawnBefore px coords → (blit dst ds px coords fb).2 (dst + y * ds + x) = c) ∧
    ∀ a, (∀ y x c, (y, x, c) ∈ drawnBefore px coords → a ≠ dst + y * ds + x) →
      (blit dst ds px coords fb).2 a = fb a := by
  induction coords generalizing fb with
  | nil => exact ⟨fun _ _ _ hc => absurd hc List.not_mem_nil, fun _ _ => rfl⟩
  | cons d rest ih =>
      obtain ⟨y', x'⟩ := d
      rw [List.pairwise_cons] at hinj
      simp only [blit, drawnBefore]
      cases px y' x' with
      | none => exact ⟨fun _ _ _ hc => absurd hc List.not_mem_nil, fun _ _ => rfl⟩
      | some colour =>
          obtain ⟨hdrawn, hkept⟩ := ih (Function.update fb (dst + y' * ds + x') colour) hinj.2
          refine ⟨fun y x c hc => ?_, fun a ha => ?_⟩
          · rcases List.mem_cons.mp hc with heq | hrest
            · cases heq
              rw [hkept _ fun y x c hc => hinj.1 (y, x) (mem_drawnBefore hc), Function.update_self]
            · exact hdrawn y x c hrest
          · rw [hkept a fun y x c hc => ha y x c (List.mem_cons_of_mem _ hc),
              Function.update_of_ne (ha y' x' colour List.mem_cons_self)]

-- A refused tile leaves its stray pixels behind and nothing else.
theorem rdDecodeTile_refused (enc : Nat) (p : Bytes) (w h dst ds : Nat) (fb : Pixels) (hds : w ≤ ds)
    (hrc : (rdDecodeTile enc p w h dst ds fb).1 ≠ 0) :
    (∀ y x c, (y, x, c) ∈ strayPixels enc p w h → y < h ∧ x < w ∧
      (rdDecodeTile enc p w h dst ds fb).2 (dst + y * ds + x) = c) ∧
    ∀ a, (∀ y x c, (y, x, c) ∈ strayPixels enc p w h → a ≠ dst + y * ds + x) →
      (rdDecodeTile enc p w h dst ds fb).2 a = fb a := by
  rcases rdDecodeTile_cases enc p w h with ⟨hnone, hstray⟩ | ⟨_, ⟨colour, hdraw⟩ | ⟨px, hstray, hdraw⟩⟩
  · rw [hnone, hstray]
    exact ⟨nofun, fun _ _ => rfl⟩
  · rw [hdraw, blit_window dst ds w h hds] at hrc
    exact absurd rfl hrc
  · obtain ⟨hdrawn, hkept⟩ := blit_drawn dst ds px (window w h) fb (window_pairwise dst ds w h hds)
    rw [hdraw, hstray]
    exact ⟨fun y x c hc => ⟨(mem_window.mp (mem_drawnBefore hc)).1, (mem_window.mp (mem_drawnBefore hc)).2,
      hdrawn y x c hc⟩, hkept⟩

-- A decoded tile changes its rectangle only.
theorem rdDecodeTile_outside (enc : Nat) (p : Bytes) (w h dst ds : Nat) (fb : Pixels) (hds : w ≤ ds) (a : Nat)
    (hout : ∀ y < h, ∀ x < w, a ≠ dst + y * ds + x) : (rdDecodeTile enc p w h dst ds fb).2 a = fb a := by
  rcases rdDecodeTile_cases enc p w h with ⟨hnone, _⟩ | ⟨_, ⟨colour, hdraw⟩ | ⟨px, _, hdraw⟩⟩
  · rw [hnone]
  · rw [hdraw, blit_window dst ds w h hds]
    exact paint_outside dst ds w h colour fb a hout
  · rw [hdraw]
    refine (blit_drawn dst ds px (window w h) fb (window_pairwise dst ds w h hds)).2 a fun y x c hc => ?_
    obtain ⟨hy, hx⟩ := mem_window.mp (mem_drawnBefore hc)
    exact hout y hy x hx

theorem rdDecodeTile_result (enc : Nat) (p : Bytes) (w h dst ds dst' ds' : Nat) (fb fb' : Pixels) :
    (rdDecodeTile enc p w h dst ds fb).1 = (rdDecodeTile enc p w h dst' ds' fb').1 := by
  rcases rdDecodeTile_cases enc p w h with ⟨hnone, _⟩ | ⟨_, ⟨colour, hdraw⟩ | ⟨px, _, hdraw⟩⟩
  · rw [hnone, hnone]
  · rw [hdraw, hdraw]
    exact blit_result dst ds dst' ds' _ _ fb fb'
  · rw [hdraw, hdraw]
    exact blit_result dst ds dst' ds' _ _ fb fb'

end TetherDesk.Codec
