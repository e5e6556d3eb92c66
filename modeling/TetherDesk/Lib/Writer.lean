import Mathlib.Data.List.Basic

namespace TetherDesk.Lib

-- A non-blocking writer: one call offers a buffer and reports how many items of
-- it are taken off the caller's hands (none when the writer failed), and what the
-- other side has received in the meantime.
structure Writer (τ α ω : Type*) where
  send : τ → List α → ω → Option Nat × τ × List α

namespace Writer

structure Drained (τ α : Type*) where
  count : Nat
  failed : Bool
  writer : τ
  delivered : List α

variable {τ α ω : Type*}

-- Offer what is left of the buffer until the writer takes nothing.
def drain (W : Writer τ α ω) : List ω → τ → List α → Drained τ α
  | [], t, _ => ⟨0, false, t, []⟩
  | answer :: answers, t, buf =>
      if buf.isEmpty then ⟨0, false, t, []⟩
      else
        match W.send t buf answer with
        | (none, t, got) => ⟨0, true, t, got⟩
        | (some 0, t, got) => ⟨0, false, t, got⟩
        | (some (n + 1), t, got) =>
            let rest := drain W answers t (buf.drop (n + 1))
            ⟨n + 1 + rest.count, rest.failed, rest.writer, got ++ rest.delivered⟩

-- owes t buf: what the writer holds back agrees with the buffer its caller keeps.
structure InOrder (W : Writer τ α ω) (owes : τ → List α → Prop) : Prop where
  sent : ∀ t buf answer n t' got, owes t buf → W.send t buf answer = (some n, t', got) →
    got = buf.take n ∧ n ≤ buf.length ∧ owes t' (buf.drop n)
  failed : ∀ t buf answer t' got, owes t buf → W.send t buf answer = (none, t', got) →
    got = [] ∧ owes t' buf

-- Whatever the answers, the items delivered are those the caller takes off its
-- buffer.
theorem drain_spec {W : Writer τ α ω} {owes : τ → List α → Prop} (hW : InOrder W owes)
    (answers : List ω) (t : τ) (buf : List α) (h : owes t buf) :
    (drain W answers t buf).delivered = buf.take (drain W answers t buf).count ∧
    (drain W answers t buf).count ≤ buf.length ∧
    owes (drain W answers t buf).writer (buf.drop (drain W answers t buf).count) := by
  induction answers generalizing t buf with
  | nil => simpa [drain] using h
  | cons answer answers ih =>
      unfold drain
      by_cases hempty : buf.isEmpty
      · simpa [hempty] using h
      · rw [if_neg hempty]
        cases hsend : W.send t buf answer with
        | mk taken rest =>
            obtain ⟨t', got⟩ := rest
            cases taken with
            | none => simpa using hW.failed _ _ _ _ _ h hsend
            | some n =>
                obtain ⟨hgot, hle, howes⟩ := hW.sent _ _ _ _ _ _ h hsend
                cases n with
                | zero => exact ⟨hgot, hle, howes⟩
                | succ n =>
                    obtain ⟨ih₁, ih₂, ih₃⟩ := ih t' (buf.drop (n + 1)) howes
                    rw [List.length_drop] at ih₂
                    dsimp only
                    refine ⟨?_, by omega, by rwa [List.drop_drop] at ih₃⟩
                    rw [hgot, ih₁, ← List.take_add]

end Writer

end TetherDesk.Lib
