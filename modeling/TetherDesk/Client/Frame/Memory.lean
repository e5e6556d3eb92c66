import TetherDesk.Client.Frame.Records
import TetherDesk.Codec.Tile.Decode
import TetherDesk.Reader.Fields

namespace TetherDesk.Client

open TetherDesk.Codec
open TetherDesk.Lib.Buffer

-- App::on_frame over the bytes of the message and the elements of fb_. none is
-- a read outside the message, a write outside fb_ or one of the arrays of
-- rd_decode_tile, a read of an element nothing has been written to, or a loop
-- that goes on.

-- rw_, rh_ and fb_, which has an element for each pixel.
structure Framebuffer where
  w : Nat
  h : Nat
  px : List UInt32
  size : px.length = w * h

def Framebuffer.pixels (screen : Framebuffer) : Pixels := fun i => screen.px.getD i 0

-- The stack of each rd_decode_tile call starts with whatever lies there.
def frameTilesAt (m : Bytes) (stack : Nat → DecoderStack) (rw rh : Nat) :
    Nat → ReaderAt → Cells UInt32 → Option (Bool × List Rect × Cells UInt32)
  | 0, _, fb => some (false, [], fb)
  | n + 1, r, fb => do
      let (x, r) ← rdGetU16At m r
      let (y, r) ← rdGetU16At m r
      let (w, r) ← rdGetU16At m r
      let (h, r) ← rdGetU16At m r
      let (enc, r) ← rdGetU8At m r
      let (p, r) ← rdGetBlobAt m r
      if r.err ∨ x + w > rw ∨ y + h > rh then some (true, [], fb)
      else
        let (rc, fb) ← rdDecodeTileInto (stack n) enc (p.getD []) w h (y * rw + x) rw fb
        if rc ≠ 0 then some (true, [], fb)
        else
          let (bad, rects, fb) ← frameTilesAt m stack rw rh n r fb
          some (bad, ⟨x, y, w, h⟩ :: rects, fb)

-- The identifier, whether a record was bad, the rectangles and fb_; the inner
-- none is the early return.
def onFrameAt (m : Bytes) (stack : Nat → DecoderStack) (screen : Framebuffer) (tex : Bool) (r : ReaderAt) :
    Option (Option (Nat × Bool × List Rect × Cells UInt32)) := do
  let (id, r) ← rdGetU32At m r
  let (_, r) ← rdGetU8At m r
  let (n, r) ← rdGetU16At m r
  if r.err ∨ !tex then some none
  else
    let (bad, rects, fb) ← frameTilesAt m stack screen.w screen.h n r (fresh screen.px)
    some (some (id, bad, rects, fb))

-- The pixels of a record that is no larger than a tile and lies on the screen.
def TileRecord.Covers (t : TileRecord) (rw rh i : Nat) : Prop :=
  t.Fits rw rh ∧ (1 ≤ t.w ∧ t.w ≤ RD_TILE) ∧ (1 ≤ t.h ∧ t.h ≤ RD_TILE) ∧
    ∃ X Y, (t.x ≤ X ∧ X < t.x + t.w) ∧ (t.y ≤ Y ∧ Y < t.y + t.h) ∧ i = Y * rw + X

-- Decoding a record that fits stays inside its rectangle.
theorem TileRecord.decodeAt (t : TileRecord) (stack : DecoderStack) (rw rh : Nat) (fb : Cells UInt32)
    (pixels : Pixels) (hfits : t.Fits rw rh) (hsize : fb.length = rw * rh) (hfb : Agrees fb pixels) :
    ∃ fb', rdDecodeTileInto stack t.enc t.payload t.w t.h (t.y * rw + t.x) rw fb =
        some ((t.decode rw pixels).1, fb') ∧
      Agrees fb' (t.decode rw pixels).2 ∧ WritesOnly fb fb' (t.Covers rw rh) := by
  have haddr : ∀ y x, t.y * rw + t.x + y * rw + x = (t.y + y) * rw + (t.x + x) := by
    intro y x
    rw [Nat.add_mul]
    omega
  have hwide := hfits.1
  have htall := hfits.2
  obtain ⟨fb', hrun, hagrees, honly⟩ := rdDecodeTileInto_eq stack t.enc t.payload t.w t.h (t.y * rw + t.x) rw fb
    pixels (by
      rintro i ⟨y, hy, x, hx, rfl⟩
      rw [haddr, hsize]
      exact index_lt (by omega) (by omega)) hfb
  refine ⟨fb', hrun, hagrees, honly.mono ?_⟩
  rintro i ⟨hw, hh, y, hy, x, hx, rfl⟩
  exact ⟨hfits, hw, hh, t.x + x, t.y + y, by omega, by omega, haddr y x⟩

theorem readRecord_at (m : Bytes) (r : ReaderAt) (hpos : r.pos ≤ m.length) :
    ∃ x y w h enc p r₁ r₂ r₃ r₄ r₅ r', rdGetU16At m r = some (x, r₁) ∧ rdGetU16At m r₁ = some (y, r₂) ∧
      rdGetU16At m r₂ = some (w, r₃) ∧ rdGetU16At m r₃ = some (h, r₄) ∧ rdGetU8At m r₄ = some (enc, r₅) ∧
      rdGetBlobAt m r₅ = some (p, r') ∧ r'.pos ≤ m.length ∧
      readRecord (r.toReader m) = (⟨x, y, w, h, enc, p.getD []⟩, r'.toReader m) := by
  obtain ⟨x, r₁, hx, hpos₁, hread₁⟩ := rdGetU16At_eq m r hpos
  obtain ⟨y, r₂, hy, hpos₂, hread₂⟩ := rdGetU16At_eq m r₁ hpos₁
  obtain ⟨w, r₃, hw, hpos₃, hread₃⟩ := rdGetU16At_eq m r₂ hpos₂
  obtain ⟨h, r₄, hh, hpos₄, hread₄⟩ := rdGetU16At_eq m r₃ hpos₃
  obtain ⟨enc, r₅, henc, hpos₅, hread₅⟩ := rdGetU8At_eq m r₄ hpos₄
  obtain ⟨p, r', hp, hpos', hread'⟩ := rdGetBlobAt_eq m r₅ hpos₅
  refine ⟨x, y, w, h, enc, p, r₁, r₂, r₃, r₄, r₅, r', hx, hy, hw, hh, henc, hp, hpos', ?_⟩
  rw [readRecord, hread₁]
  dsimp only
  rw [hread₂]
  dsimp only
  rw [hread₃]
  dsimp only
  rw [hread₄]
  dsimp only
  rw [hread₅]
  dsimp only
  rw [hread']

-- The tile loop ends without a fault, reports what frameTiles reports, draws the
-- records and writes nothing outside of them.
theorem frameTilesAt_eq (m : Bytes) (stack : Nat → DecoderStack) (rw rh n : Nat) (r : ReaderAt)
    (fb : Cells UInt32) (pixels : Pixels) (hpos : r.pos ≤ m.length) (hsize : fb.length = rw * rh)
    (hfb : Agrees fb pixels) :
    ∃ fb', frameTilesAt m stack rw rh n r fb = some ((frameTiles rw rh n (r.toReader m) pixels).1,
        (frameTiles rw rh n (r.toReader m) pixels).2.1, fb') ∧
      (let (good, last) := frameRecords rw rh n (r.toReader m)
       Agrees fb' ((good ++ last.toList).foldl (drawRecord rw rh) pixels) ∧
        WritesOnly fb fb' fun i => ∃ t ∈ good ++ last.toList, t.Covers rw rh i) := by
  induction n generalizing r fb pixels with
  | zero => exact ⟨fb, rfl, hfb, .refl _ _⟩
  | succ n ih =>
      obtain ⟨x, y, w, h, enc, p, r₁, r₂, r₃, r₄, r₅, r', hx, hy, hw, hh, henc, hp, hpos', hread⟩ :=
        readRecord_at m r hpos
      have hplain := frameTiles_succ rw rh n (r.toReader m) pixels
      rw [hread] at hplain
      rw [hplain]
      simp only [frameTilesAt, frameRecords, Option.bind_eq_bind]
      rw [hx, Option.bind_some]
      dsimp only
      rw [hy, Option.bind_some]
      dsimp only
      rw [hw, Option.bind_some]
      dsimp only
      rw [hh, Option.bind_some]
      dsimp only
      rw [henc, Option.bind_some]
      dsimp only
      rw [hp, Option.bind_some, hread]
      dsimp only
      have herr : (r'.toReader m).err = r'.err := rfl
      rw [herr]
      by_cases hbad : r'.err ∨ x + w > rw ∨ y + h > rh
      · by_cases hcut : r'.err = true
        · rw [if_pos hbad, if_pos (Or.inl hcut), if_pos hcut]
          exact ⟨fb, rfl, hfb, .refl _ _⟩
        · have hout : ¬TileRecord.Fits ⟨x, y, w, h, enc, p.getD []⟩ rw rh := by
            rintro ⟨h₁, h₂⟩
            dsimp only at h₁ h₂
            exact hbad.elim hcut (by omega)
          rw [if_pos hbad, if_pos (Or.inr hout), if_neg hcut, if_neg fun hacc => hout hacc.1]
          refine ⟨fb, rfl, ?_⟩
          change Agrees fb (drawRecord rw rh pixels _) ∧ _
          rw [drawRecord, if_neg hout]
          exact ⟨hfb, .refl _ _⟩
      · have hfits : TileRecord.Fits ⟨x, y, w, h, enc, p.getD []⟩ rw rh := by
          constructor <;> dsimp only <;> omega
        have hcut : ¬r'.err = true := fun he => hbad (.inl he)
        obtain ⟨fb₁, hrun, hagrees, honly⟩ :=
          TileRecord.decodeAt ⟨x, y, w, h, enc, p.getD []⟩ (stack n) rw rh fb pixels hfits hsize hfb
        have hgoes : ¬ (r'.err = true ∨ ¬TileRecord.Fits ⟨x, y, w, h, enc, p.getD []⟩ rw rh) :=
          fun hor => hor.elim hcut fun hout => hout hfits
        rw [if_neg hbad, if_neg hgoes, if_neg hcut, hrun, Option.bind_some]
        dsimp only
        have hrect : Rect.mk x y w h = TileRecord.rect ⟨x, y, w, h, enc, p.getD []⟩ := rfl
        rw [hrect]
        generalize TileRecord.mk x y w h enc (p.getD []) = t at hfits hagrees honly
        by_cases hrc : (t.decode rw pixels).1 = 0
        · obtain ⟨fb', hloop, hspec⟩ := ih r' fb₁ _ hpos' (honly.1.trans hsize) hagrees
          rw [if_neg (not_not.mpr hrc), if_neg (not_not.mpr hrc),
            if_pos ((t.accepted_iff rw rh pixels).mpr ⟨hfits, hrc⟩), hloop]
          generalize frameRecords rw rh n (r'.toReader m) = records at hspec ⊢
          obtain ⟨good, last⟩ := records
          refine ⟨fb', rfl, ?_, (honly.mono ?_).trans (hspec.2.mono ?_)⟩
          · change Agrees fb' ((good ++ last.toList).foldl (drawRecord rw rh) (drawRecord rw rh pixels t))
            rw [drawRecord_of_fits rw rh pixels t hfits]
            exact hspec.1
          · exact fun i hi => ⟨t, List.mem_cons_self, hi⟩
          · rintro i ⟨s, hs, hi⟩
            exact ⟨s, List.mem_cons_of_mem _ hs, hi⟩
        · rw [if_pos hrc, if_pos hrc, if_neg fun hacc => hrc ((t.accepted_iff rw rh pixels).mp hacc).2]
          refine ⟨fb₁, rfl, ?_, honly.mono fun i hi => ⟨t, List.mem_singleton_self t, hi⟩⟩
          change Agrees fb₁ (drawRecord rw rh pixels t)
          rw [drawRecord_of_fits rw rh pixels t hfits]
          exact hagrees

theorem Framebuffer.agrees (screen : Framebuffer) : Agrees (fresh screen.px) screen.pixels := by
  refine agrees_fresh screen.px _ fun i a ha => ?_
  rw [Framebuffer.pixels, List.getD_eq_getElem?_getD, ha, Option.getD_some]

def Framebuffer.remote (screen : Framebuffer) (tex : Bool) : Remote := ⟨screen.w, screen.h, screen.pixels, tex⟩

-- The type, the identifier, the flags and the number of records.
theorem frameHeader_err (m : Bytes) :
    (rdGetU16 (rdGetU8 (rdGetU32 (rdGetU8 (rdReaderInit m)).2).2).2).2.err = true ↔ m.length < 8 := by
  have h := readFields_enough m [.u8, .u32, .u8, .u16]
  simp only [Enough, Kind.size, List.length_drop, and_true] at h
  refine h.trans ?_
  omega

theorem onFrame_none (m : Bytes) (remote : Remote) :
    onFrame remote (rdGetU8 (rdReaderInit m)).2 = none ↔ m.length < 8 ∨ remote.tex = false := by
  rw [← frameHeader_err]
  unfold onFrame
  dsimp only
  generalize rdGetU16 (rdGetU8 (rdGetU32 (rdGetU8 (rdReaderInit m)).2).2).2 = header
  by_cases hearly : header.2.err = true ∨ (!remote.tex) = true
  · rw [if_pos hearly]
    simpa using hearly
  · rw [if_neg hearly]
    simpa using hearly

-- What on_frame reads before its loop, and what is left to do behind it.
theorem onFrameAt_header (m : Bytes) (stack : Nat → DecoderStack) (screen : Framebuffer) (tex : Bool) :
    ∃ type r id n r₃, rdGetU8At m ⟨0, false⟩ = some (type, r) ∧ r₃.pos ≤ m.length ∧
      rdGetU16 (rdGetU8 (rdGetU32 (rdGetU8 (rdReaderInit m)).2).2).2 = (n, r₃.toReader m) ∧
      onFrameAt m stack screen tex r = (if r₃.err ∨ !tex then some none else
        (frameTilesAt m stack screen.w screen.h n r₃ (fresh screen.px)).bind fun (bad, rects, fb) =>
          some (some (id, bad, rects, fb))) ∧
      onFrame (screen.remote tex) (rdGetU8 (rdReaderInit m)).2 = if r₃.err ∨ !tex then none else
        some ⟨id, (frameTiles screen.w screen.h n (r₃.toReader m) screen.pixels).1,
          (frameTiles screen.w screen.h n (r₃.toReader m) screen.pixels).2.1,
          { screen.remote tex with fb := (frameTiles screen.w screen.h n (r₃.toReader m) screen.pixels).2.2 }⟩ := by
  obtain ⟨type, r, htype, hpos, hread⟩ := rdGetU8At_eq m ⟨0, false⟩ (Nat.zero_le _)
  obtain ⟨id, r₁, hid, hpos₁, hread₁⟩ := rdGetU32At_eq m r hpos
  obtain ⟨flags, r₂, hflags, hpos₂, hread₂⟩ := rdGetU8At_eq m r₁ hpos₁
  obtain ⟨n, r₃, hn, hpos₃, hread₃⟩ := rdGetU16At_eq m r₂ hpos₂
  have hstart : rdGetU8 (rdReaderInit m) = (type, r.toReader m) := hread
  have hheader : rdGetU16 (rdGetU8 (rdGetU32 (rdGetU8 (rdReaderInit m)).2).2).2 = (n, r₃.toReader m) := by
    rw [hstart, hread₁, hread₂, hread₃]
  have hidentifier : (rdGetU32 (rdGetU8 (rdReaderInit m)).2).1 = id := by
    rw [hstart, hread₁]
  refine ⟨type, r, id, n, r₃, htype, hpos₃, hheader, ?_, ?_⟩
  · simp only [onFrameAt, Option.bind_eq_bind]
    rw [hid, Option.bind_some]
    dsimp only
    rw [hflags, Option.bind_some]
    dsimp only
    rw [hn, Option.bind_some]
  · unfold onFrame
    dsimp only
    rw [hheader, hidentifier]
    rfl

-- The loop of on_frame ends before the last announced record when one is bad.
theorem frameTiles_bad (rw rh n : Nat) (r : Reader) (fb : Pixels) :
    (frameTiles rw rh n r fb).1 = true ↔ (frameRecords rw rh n r).1.length < n := by
  induction n generalizing r fb with
  | zero => simp [frameTiles, frameRecords]
  | succ n ih =>
      rw [frameTiles_succ, frameRecords]
      generalize readRecord r = read
      obtain ⟨t, r⟩ := read
      dsimp only
      by_cases herr : r.err
      · rw [if_pos (Or.inl herr), if_pos herr]
        simp
      · by_cases hacc : t.Accepted rw rh
        · obtain ⟨hfits, hrc⟩ := (t.accepted_iff rw rh fb).mp hacc
          rw [if_neg (by tauto), if_neg herr, if_neg (not_not.mpr hrc), if_pos hacc]
          dsimp only
          rw [ih, List.length_cons]
          omega
        · rw [if_neg herr, if_neg hacc]
          by_cases hfits : t.Fits rw rh
          · rw [if_neg (by tauto), if_pos fun hrc => hacc ((t.accepted_iff rw rh fb).mpr ⟨hfits, hrc⟩)]
            simp
          · rw [if_pos (Or.inr hfits)]
            simp

-- A message of any bytes is read inside its bounds and to an end, and no record is
-- left out: on_frame returns early only when the header is cut or there is no
-- texture, and else it does what it does on the readers without bounds. fb_ changes
-- in the rectangles of the records drawn or refused last, each of them no
-- larger than a tile and on the screen; the records before the first bad one
-- are drawn as rd_decode_tile draws them.
theorem hostile_frame_confined (m : Bytes) (stack : Nat → DecoderStack) (screen : Framebuffer) (tex : Bool) :
    ∃ type r result, rdGetU8At m ⟨0, false⟩ = some (type, r) ∧ onFrameAt m stack screen tex r = some result ∧
      (result = none ↔ m.length < 8 ∨ tex = false) ∧
      (result = none ↔ onFrame (screen.remote tex) (rdGetU8 (rdReaderInit m)).2 = none) ∧
      ∀ id bad rects (fb : Cells UInt32), result = some (id, bad, rects, fb) →
        (∃ f, onFrame (screen.remote tex) (rdGetU8 (rdReaderInit m)).2 = some f ∧ f.id = id ∧ f.bad = bad ∧
          f.rects = rects ∧ Agrees fb f.remote.fb) ∧
        (let (good, last) := parsedRecords screen.w screen.h (rdGetU8 (rdReaderInit m)).2
         (∀ t ∈ good, t.Accepted screen.w screen.h) ∧ (∀ t, last = some t → ¬ t.Accepted screen.w screen.h) ∧
         rects = good.map TileRecord.rect ∧
         (bad = true ↔ good.length < (rdGetU16 (rdGetU8 (rdGetU32 (rdGetU8 (rdReaderInit m)).2).2).2).1) ∧
         (∀ (i : Nat) (c : UInt32), fb[i]? = some (.written c) →
           ∃ t ∈ good ++ last.toList, t.Covers screen.w screen.h i) ∧
         (∀ (i : Nat) (c : UInt32), fb[i]? = some (.stale c) → screen.px[i]? = some c) ∧
         fb.length = screen.w * screen.h ∧
         Agrees fb ((good ++ last.toList).foldl (drawRecord screen.w screen.h) screen.pixels)) := by
  obtain ⟨type, r, id, n, r₃, htype, hpos, hheader, hrun, hplain⟩ := onFrameAt_header m stack screen tex
  have hrecords : parsedRecords screen.w screen.h (rdGetU8 (rdReaderInit m)).2 =
      frameRecords screen.w screen.h n (r₃.toReader m) := by
    unfold parsedRecords
    dsimp only
    rw [hheader]
  have hnone := onFrame_none m (screen.remote tex)
  by_cases hearly : r₃.err ∨ !tex
  · rw [if_pos hearly] at hrun hplain
    exact ⟨type, r, none, htype, hrun, ⟨fun _ => hnone.mp hplain, fun _ => rfl⟩,
      ⟨fun _ => hplain, fun _ => rfl⟩, fun _ _ _ _ h => by cases h⟩
  · obtain ⟨fb, hloop, hspec⟩ := frameTilesAt_eq m stack screen.w screen.h n r₃ (fresh screen.px)
      screen.pixels hpos (by rw [fresh, List.length_map, screen.size]) screen.agrees
    have hgood := frameRecords_good screen.w screen.h n (r₃.toReader m)
    have hbad := frameTiles_bad screen.w screen.h n (r₃.toReader m) screen.pixels
    have hdrawn := frameTiles_drawn screen.w screen.h n (r₃.toReader m) screen.pixels
    rw [if_neg hearly, hloop, Option.bind_some] at hrun
    rw [if_neg hearly] at hplain
    refine ⟨type, r, _, htype, hrun, ?_, ?_, ?_⟩
    · rw [← show (screen.remote tex).tex = tex from rfl, ← hnone, hplain]
      simp
    · rw [hplain]
      simp
    · rintro _ _ _ _ ⟨⟩
      rw [hrecords, hheader]
      generalize frameRecords screen.w screen.h n (r₃.toReader m) = records at hspec hgood hbad hdrawn ⊢
      obtain ⟨good, last⟩ := records
      obtain ⟨hagrees, honly⟩ := hspec
      obtain ⟨hrects, hfb⟩ := Prod.mk.inj hdrawn
      refine ⟨⟨_, hplain, rfl, rfl, rfl, ?_⟩, hgood.1, hgood.2, hrects, hbad, fun i c => honly.written,
        fun i c => honly.stale, by rw [honly.1, fresh, List.length_map, screen.size], hagrees⟩
      dsimp only
      rw [hfb]
      exact hagrees

def emptyStack : DecoderStack :=
  ⟨List.replicate 256 0, List.replicate TILE_PX 0, List.replicate (TILE_PX * 3) 0, List.length_replicate,
    List.length_replicate, List.length_replicate⟩

-- A record for the left one of two pixels and one behind the right edge.
def offTheEdge : Bytes :=
  putU8 RD_S_FRAME ++ putU32 7 ++ putU8 0 ++ putU16 2 ++
    (putU16 0 ++ putU16 0 ++ putU16 1 ++ putU16 1 ++ putU8 RD_ENC_SOLID ++ putBlob [1, 2, 3]) ++
    (putU16 2 ++ putU16 0 ++ putU16 1 ++ putU16 1 ++ putU8 RD_ENC_SOLID ++ putBlob [4, 5, 6])

-- The first is drawn, the second ends the loop.
theorem hostile_frame_confined_edge :
    ∃ r fb, onFrameAt offTheEdge (fun _ => emptyStack) ⟨2, 1, [0xFF000000, 0xFF000000], rfl⟩ true r =
        some (some (7, true, [⟨0, 0, 1, 1⟩], fb)) ∧
      fb.map (fun c => c.value) = [0xFF010203, 0xFF000000] := by
  let screen : Framebuffer := ⟨2, 1, [0xFF000000, 0xFF000000], rfl⟩
  obtain ⟨type, r, result, -, hrun, hnone, -, hspec⟩ :=
    hostile_frame_confined offTheEdge (fun _ => emptyStack) screen true
  cases result with
  | none => exact absurd (hnone.mp rfl) (by decide)
  | some result =>
      obtain ⟨id, bad, rects, fb⟩ := result
      obtain ⟨⟨f, hf, rfl, rfl, rfl, hagrees⟩, hrecords⟩ := hspec id bad rects fb rfl
      obtain ⟨left, right, rfl⟩ := List.length_eq_two.mp (show fb.length = 2 from hrecords.2.2.2.2.2.2.1)
      have hseen : (onFrame (screen.remote true) (rdGetU8 (rdReaderInit offTheEdge)).2).map (fun f =>
          (f.id, f.bad, f.rects, f.remote.fb 0, f.remote.fb 1)) =
            some (7, true, [⟨0, 0, 1, 1⟩], 0xFF010203, 0xFF000000) := by
        decide
      rw [hf] at hseen
      obtain ⟨hid, hbad, hrects, hleft, hright⟩ := by simpa using hseen
      rw [hid, hbad, hrects] at hrun
      refine ⟨r, _, hrun, ?_⟩
      rw [List.map_cons, List.map_cons, List.map_nil, hagrees 0 left rfl, hagrees 1 right rfl, hleft, hright]

end TetherDesk.Client
