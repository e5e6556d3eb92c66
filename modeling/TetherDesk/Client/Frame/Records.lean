import TetherDesk.Client.Frame
import TetherDesk.Codec.Tile.Partial

namespace TetherDesk.Client

open TetherDesk.Codec

structure TileRecord where
  x : Nat
  y : Nat
  w : Nat
  h : Nat
  enc : Nat
  payload : Bytes

def readRecord (r : Reader) : TileRecord × Reader :=
  let (x, r) := rdGetU16 r
  let (y, r) := rdGetU16 r
  let (w, r) := rdGetU16 r
  let (h, r) := rdGetU16 r
  let (enc, r) := rdGetU8 r
  let (p, r) := rdGetBlob r
  (⟨x, y, w, h, enc, p.getD []⟩, r)

def TileRecord.rect (t : TileRecord) : Rect := ⟨t.x, t.y, t.w, t.h⟩

-- rd_decode_tile on a framebuffer of rw pixels a row.
def TileRecord.decode (t : TileRecord) (rw : Nat) (fb : Pixels) : Int × Pixels :=
  rdDecodeTile t.enc t.payload t.w t.h (t.y * rw + t.x) rw fb

def TileRecord.Fits (t : TileRecord) (rw rh : Nat) : Prop := t.x + t.w ≤ rw ∧ t.y + t.h ≤ rh

instance (t : TileRecord) (rw rh : Nat) : Decidable (t.Fits rw rh) := inferInstanceAs (Decidable (_ ∧ _))

-- The record is drawn: it lies in the framebuffer and its payload decodes,
-- which does not depend on what the framebuffer shows.
def TileRecord.Accepted (t : TileRecord) (rw rh : Nat) : Prop :=
  t.Fits rw rh ∧ (t.decode rw fun _ => 0).1 = 0

instance (t : TileRecord) (rw rh : Nat) : Decidable (t.Accepted rw rh) := inferInstanceAs (Decidable (_ ∧ _))

-- The records that are drawn and the one that ends the loop, when it could be
-- read.
def frameRecords (rw rh : Nat) : Nat → Reader → List TileRecord × Option TileRecord
  | 0, _ => ([], none)
  | n + 1, r =>
      let (t, r) := readRecord r
      if r.err then ([], none)
      else if t.Accepted rw rh then
        let (good, bad) := frameRecords rw rh n r
        (t :: good, bad)
      else ([], some t)

-- The records of a FRAME message from behind its type on.
def parsedRecords (rw rh : Nat) (r : Reader) : List TileRecord × Option TileRecord :=
  let (_, r) := rdGetU32 r
  let (_, r) := rdGetU8 r
  let (n, r) := rdGetU16 r
  frameRecords rw rh n r

def drawRecord (rw rh : Nat) (fb : Pixels) (t : TileRecord) : Pixels :=
  if t.Fits rw rh then (t.decode rw fb).2 else fb

theorem TileRecord.decode_result (t : TileRecord) (rw : Nat) (fb fb' : Pixels) :
    (t.decode rw fb).1 = (t.decode rw fb').1 := rdDecodeTile_result _ _ _ _ _ _ _ _ fb fb'

theorem TileRecord.accepted_iff (t : TileRecord) (rw rh : Nat) (fb : Pixels) :
    t.Accepted rw rh ↔ t.Fits rw rh ∧ (t.decode rw fb).1 = 0 := by
  rw [TileRecord.Accepted, t.decode_result rw _ fb]

theorem drawRecord_of_fits (rw rh : Nat) (fb : Pixels) (t : TileRecord) (h : t.Fits rw rh) :
    drawRecord rw rh fb t = (t.decode rw fb).2 := if_pos h

theorem frameTiles_succ (rw rh n : Nat) (r : Reader) (fb : Pixels) :
    frameTiles rw rh (n + 1) r fb =
      (let (t, r) := readRecord r
       if r.err ∨ ¬t.Fits rw rh then (true, [], fb)
       else if (t.decode rw fb).1 ≠ 0 then (true, [], (t.decode rw fb).2)
       else
         let (bad, rects, fb) := frameTiles rw rh n r (t.decode rw fb).2
         (bad, t.rect :: rects, fb)) := by
  simp only [frameTiles, readRecord, TileRecord.Fits, TileRecord.decode, TileRecord.rect]
  refine if_congr ?_ rfl rfl
  rw [not_and_or, Nat.not_le, Nat.not_le]

-- The loop of App::on_frame draws the records one after the other.
theorem frameTiles_drawn (rw rh n : Nat) (r : Reader) (fb : Pixels) :
    (frameTiles rw rh n r fb).2 =
      (let (good, bad) := frameRecords rw rh n r
       (good.map (·.rect), (good ++ bad.toList).foldl (drawRecord rw rh) fb)) := by
  induction n generalizing r fb with
  | zero => rfl
  | succ n ih =>
      rw [frameTiles_succ, frameRecords]
      generalize readRecord r = read
      obtain ⟨t, r⟩ := read
      dsimp only
      by_cases herr : r.err
      · rw [if_pos (Or.inl herr), if_pos herr]
        rfl
      · by_cases hfits : t.Fits rw rh
        · rw [if_neg (by tauto), if_neg herr]
          by_cases hrc : (t.decode rw fb).1 = 0
          · rw [if_neg (not_not.mpr hrc), if_pos ((t.accepted_iff rw rh fb).mpr ⟨hfits, hrc⟩)]
            have hrest := ih r (t.decode rw fb).2
            generalize frameTiles rw rh n r (t.decode rw fb).2 = out at hrest ⊢
            generalize frameRecords rw rh n r = records at hrest ⊢
            obtain ⟨bad, rects, fb'⟩ := out
            obtain ⟨good, last⟩ := records
            cases hrest
            dsimp only
            rw [List.cons_append, List.foldl_cons, drawRecord_of_fits rw rh fb t hfits]
            rfl
          · rw [if_pos hrc, if_neg fun h => hrc ((t.accepted_iff rw rh fb).mp h).2]
            change _ = ([], drawRecord rw rh fb t)
            rw [drawRecord_of_fits rw rh fb t hfits]
        · rw [if_pos (Or.inr hfits), if_neg herr, if_neg fun h => hfits h.1]
          change _ = ([], drawRecord rw rh fb t)
          rw [drawRecord, if_neg hfits]

theorem frameRecords_good (rw rh n : Nat) (r : Reader) :
    (∀ t ∈ (frameRecords rw rh n r).1, t.Accepted rw rh) ∧
      ∀ t, (frameRecords rw rh n r).2 = some t → ¬t.Accepted rw rh := by
  induction n generalizing r with
  | zero => exact ⟨nofun, nofun⟩
  | succ n ih =>
      rw [frameRecords]
      generalize readRecord r = read
      obtain ⟨t, r⟩ := read
      dsimp only
      by_cases herr : r.err
      · rw [if_pos herr]
        exact ⟨nofun, nofun⟩
      · rw [if_neg herr]
        by_cases hacc : t.Accepted rw rh
        · obtain ⟨hgood, hbad⟩ := ih r
          rw [if_pos hacc]
          refine ⟨fun s hs => ?_, hbad⟩
          rcases List.mem_cons.mp hs with rfl | hs
          · exact hacc
          · exact hgood s hs
        · rw [if_neg hacc]
          refine ⟨nofun, ?_⟩
          rintro s ⟨⟩
          exact hacc

end TetherDesk.Client
