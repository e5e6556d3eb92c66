import TetherDesk.Client.Store.RoundTrip
import TetherDesk.Lib.Disk

namespace TetherDesk.Client

open TetherDesk.Lib.Disk

-- viewer.tsv and viewer.tsv.tmp
inductive StoreFile
  | path
  | tmp
  deriving DecidableEq

-- What may go wrong in Store::save: the temporary file cannot be opened, no
-- more than `room` bytes of it can be written, and the process or the machine
-- stops after `stop` operations.
structure SaveFault where
  opens : Bool
  room : Nat
  stop : Nat

-- The operations of Store::save. The stream is not asked whether all of the
-- text has been written.
def Store.saveOps (s : Store) (fault : SaveFault) : List (FileOp StoreFile UInt8) :=
  if !fault.opens then []
  else
    .truncate .tmp :: ((s.save.take fault.room).map (.append .tmp) ++
      [.chmod .tmp, .remove .path, .rename .tmp .path])

def Store.saveOn (s : Store) (fault : SaveFault) (d : Files StoreFile UInt8) : Files StoreFile UInt8 :=
  run d ((s.saveOps fault).take fault.stop)

-- load() with dir_ set; a stream on a missing file has no lines.
def loadFrom (remote : Bool) (d : Files StoreFile UInt8) : Store := (Store.new remote).load ((d .path).getD [])

-- The saved records are read back from the whole text.
def KeepsOldOrNew (remote : Bool) (s : Store) (fault : SaveFault) (d : Files StoreFile UInt8) : Prop :=
  loadFrom remote (s.saveOn fault d) = loadFrom remote d ∨
    loadFrom remote (s.saveOn fault d) = (Store.new remote).load s.save

-- The number of operations before std::remove.
def SaveFault.written (fault : SaveFault) (s : Store) : Nat := (s.save.take fault.room).length + 2

-- The run does not stop between std::remove and std::rename, and when it gets past
-- std::rename, no write to the temporary file has failed.
def SaveFault.Harmless (fault : SaveFault) (s : Store) : Prop :=
  fault.opens = true → fault.stop ≠ fault.written s + 1 ∧
    (fault.written s + 2 ≤ fault.stop → s.save.length ≤ fault.room)

-- What load() makes of the file where the run ends. A stop between std::remove and
-- std::rename is survived by empty records only, and past std::rename the text
-- written by then has to read as the old file or as the whole text.
def TextSurvives (remote : Bool) (s : Store) (fault : SaveFault) (d : Files StoreFile UInt8) : Prop :=
  fault.opens = true →
    (fault.stop = fault.written s + 1 →
      Store.new remote = loadFrom remote d ∨ Store.new remote = (Store.new remote).load s.save) ∧
    (fault.written s + 2 ≤ fault.stop →
      (Store.new remote).load (s.save.take fault.room) = loadFrom remote d ∨
        (Store.new remote).load (s.save.take fault.room) = (Store.new remote).load s.save)

-- viewer.tsv is untouched up to std::remove, missing behind it, and what the
-- temporary file holds behind std::rename.
theorem Store.saveOn_path (s : Store) (fault : SaveFault) (d : Files StoreFile UInt8)
    (hopens : fault.opens = true) :
    s.saveOn fault d .path =
      if fault.stop ≤ fault.written s then d .path
      else if fault.stop = fault.written s + 1 then none
      else some (s.save.take fault.room) := by
  have hops : s.saveOps fault = .truncate .tmp :: ((s.save.take fault.room).map (.append .tmp) ++
      [.chmod .tmp, .remove .path, .rename .tmp .path]) := by
    rw [Store.saveOps, hopens]
    rfl
  unfold Store.saveOn SaveFault.written
  rw [hops]
  generalize s.save.take fault.room = text
  have hfull : run d (.truncate .tmp :: text.map (.append .tmp)) =
      Function.update d StoreFile.tmp (some text) := by
    rw [run_cons, apply, run_appends _ StoreFile.tmp [] text (Function.update_self _ _ _), Function.update_idem,
      List.nil_append]
  have hprefix : ∀ k, run d ((FileOp.truncate StoreFile.tmp :: text.map (.append .tmp)).take k) .path =
      d .path := by
    intro k
    cases k with
    | zero => rfl
    | succ k =>
        rw [List.take_succ_cons, ← List.map_take, run_cons, apply,
          run_appends _ StoreFile.tmp [] (text.take k) (Function.update_self _ _ _)]
        rfl
  have hlen : (FileOp.truncate StoreFile.tmp :: text.map (.append .tmp)).length = text.length + 1 := by
    rw [List.length_cons, List.length_map]
  rw [← List.cons_append, List.take_append, run_append, hlen]
  by_cases hbefore : fault.stop ≤ text.length + 1
  · rw [if_pos (by omega), Nat.sub_eq_zero_of_le hbefore]
    exact hprefix fault.stop
  · rw [List.take_of_length_le (by omega), hfull]
    by_cases hchmod : fault.stop = text.length + 2
    · rw [if_pos (by omega), show fault.stop - (text.length + 1) = 1 by omega]
      rfl
    · rw [if_neg (by omega)]
      by_cases hremove : fault.stop = text.length + 3
      · rw [if_pos (by omega), show fault.stop - (text.length + 1) = 2 by omega]
        rfl
      · rw [if_neg (by omega), List.take_of_length_le (by simp only [List.length_cons, List.length_nil]; omega)]
        rfl

-- When the old or the new records survive Store::save.
theorem save_keeps_old_or_new_iff (remote : Bool) (s : Store) (fault : SaveFault) (d : Files StoreFile UInt8) :
    KeepsOldOrNew remote s fault d ↔ TextSurvives remote s fault d := by
  unfold KeepsOldOrNew TextSurvives
  by_cases hopens : fault.opens = true
  · have hpath := s.saveOn_path fault d hopens
    by_cases hbefore : fault.stop ≤ fault.written s
    · have hsame : loadFrom remote (s.saveOn fault d) = loadFrom remote d := by
        rw [loadFrom, hpath, if_pos hbefore]
        rfl
      rw [hsame]
      exact ⟨fun _ _ => ⟨fun h => by omega, fun h => by omega⟩, fun _ => .inl rfl⟩
    · by_cases hbetween : fault.stop = fault.written s + 1
      · have hempty : loadFrom remote (s.saveOn fault d) = Store.new remote := by
          rw [loadFrom, hpath, if_neg hbefore, if_pos hbetween]
          rfl
        rw [hempty]
        exact ⟨fun h _ => ⟨fun _ => h, fun _ => by omega⟩, fun h => (h hopens).1 hbetween⟩
      · have htext : loadFrom remote (s.saveOn fault d) = (Store.new remote).load (s.save.take fault.room) := by
          rw [loadFrom, hpath, if_neg hbefore, if_neg hbetween]
          rfl
        rw [htext]
        exact ⟨fun h _ => ⟨fun hstop => absurd hstop hbetween, fun _ => h⟩, fun h => (h hopens).2 (by omega)⟩
  · have hnone : s.saveOn fault d = d := by
      rw [Store.saveOn, Store.saveOps, if_pos (by simpa using hopens), List.take_nil]
      rfl
    rw [hnone]
    exact ⟨fun _ h => absurd h hopens, fun _ => .inl rfl⟩

-- Other runs keep the records only where the records are empty or the cut text
-- happens to read as a whole one.
theorem save_keeps_old_or_new (remote : Bool) (s : Store) (fault : SaveFault) (d : Files StoreFile UInt8)
    (hharmless : fault.Harmless s) : KeepsOldOrNew remote s fault d := by
  rw [save_keeps_old_or_new_iff]
  intro hopens
  obtain ⟨hbetween, hwritten⟩ := hharmless hopens
  refine ⟨fun hstop => absurd hstop hbetween, fun hstop => .inr ?_⟩
  rw [List.take_of_length_le (hwritten hstop)]

-- A viewer that knows one host and has just been told to trust a second one.
def trusting : Store := (Store.new false).trust (ascii "a") 1 (ascii "fp")

def trustingBoth : Store := trusting.trust (ascii "b") 1 (ascii "fp2")

def trustingDisk : Files StoreFile UInt8
  | .path => some trusting.save
  | .tmp => none

theorem trusting_load : loadFrom false trustingDisk = trusting := load_save trusting false nofun

theorem trustingBoth_load : (Store.new false).load trustingBoth.save = trustingBoth :=
    load_save trustingBoth false nofun

theorem trusting_known :
    (Store.new false).knownFingerprint (ascii "a") 1 = [] ∧ trusting.knownFingerprint (ascii "a") 1 ≠ [] ∧
      trustingBoth.knownFingerprint (ascii "a") 1 ≠ [] := by
  decide

-- The second host is saved with room for the text, and the machine stops afterwards.
theorem save_keeps_old_or_new_trusting : KeepsOldOrNew false trustingBoth ⟨true, 40, 44⟩ trustingDisk :=
  save_keeps_old_or_new false trustingBoth ⟨true, 40, 44⟩ trustingDisk fun _ => by decide

-- Stopped between std::remove and std::rename, or with the disk full at once,
-- the viewer is left without the host it knew.
theorem save_forgets_known_host :
    ¬KeepsOldOrNew false trustingBoth ⟨true, 40, 43⟩ trustingDisk ∧
      ¬KeepsOldOrNew false trustingBoth ⟨true, 0, 4⟩ trustingDisk := by
  obtain ⟨hnone, hold, hnew⟩ := trusting_known
  have hempty : ¬(Store.new false = loadFrom false trustingDisk ∨
      Store.new false = (Store.new false).load trustingBoth.save) := by
    rw [trusting_load, trustingBoth_load]
    rintro (h | h)
    · exact hold (h ▸ hnone)
    · exact hnew (h ▸ hnone)
  have hwritten : SaveFault.written ⟨true, 40, 43⟩ trustingBoth = 42 := by decide
  constructor
  · rw [save_keeps_old_or_new_iff]
    exact fun h => hempty ((h rfl).1 (by rw [hwritten]))
  · rw [save_keeps_old_or_new_iff]
    exact fun h => hempty ((h rfl).2 (Nat.le_refl 4))

end TetherDesk.Client
