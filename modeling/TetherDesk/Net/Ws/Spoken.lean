import TetherDesk.Net.Ws.RoundTrip

namespace TetherDesk.Net

open TetherDesk.Lib

-- A frame or an error leaves at least two bytes less, or the reader where it failed.
theorem rdWsNext_progress (r : WsReader) (inn : Bytes) :
    match rdWsNext r inn with
    | (.got _, _, inn') => inn'.length < inn.length
    | (.more, _, _) => True
    | (.error, r', inn') => rdWsNext r' inn' = (.error, r', inn') := by
  induction hn : inn.length using Nat.strong_induction_on generalizing r inn with
  | _ n ih =>
      have hnext := rdWsNext_eq r inn
      rw [hnext]
      cases hparse : wsParse r inn with
      | more => trivial
      | error =>
          rw [hparse] at hnext
          exact hnext
      | frame f =>
          rw [hparse] at hnext
          obtain ⟨hlow, hhigh⟩ := wsParse_size r inn hparse
          have hshort : (inn.drop f.size).length < inn.length := by
            rw [List.length_drop]
            omega
          dsimp only at hnext ⊢
          by_cases hcontrol : f.opcode ≥ 0x8
          · rw [if_pos hcontrol] at hnext ⊢
            by_cases hbad : f.fin = false ∨ f.payload.length > 125
            · rw [if_pos hbad] at hnext ⊢
              exact hnext
            · rw [if_neg hbad]
              exact hn ▸ hshort
          rw [if_neg hcontrol] at hnext ⊢
          cases hassemble : wsAssemble r f with
          | none =>
              rw [hassemble] at hnext
              exact hnext
          | some r₁ =>
              dsimp only
              by_cases hfin : f.fin = true
              · rw [if_pos hfin]
                exact hn ▸ hshort
              rw [if_neg hfin]
              have hrest := ih _ (hn ▸ hshort) r₁ _ rfl
              generalize rdWsNext r₁ (inn.drop f.size) = w at hrest ⊢
              obtain ⟨w, r', inn'⟩ := w
              cases w with
              | got m => exact lt_trans hrest (hn ▸ hshort)
              | more => trivial
              | error => exact hrest

theorem wsDecoder_draining : wsDecoder.Draining := by
  refine ⟨?_, ?_⟩
  · intro r inn m r' inn' h
    have hprogress := rdWsNext_progress r inn
    rcases hnext : rdWsNext r inn with ⟨w, r₁, inn₁⟩
    rw [wsDecoder_next r inn hnext] at h
    rw [hnext] at hprogress
    obtain rfl := congrArg (fun p => p.2.2) h
    cases w with
    | got m' => exact hprogress
    | more => cases h
    | error => cases h
  · intro r inn r' inn' h
    have hprogress := rdWsNext_progress r inn
    rcases hnext : rdWsNext r inn with ⟨w, r₁, inn₁⟩
    rw [wsDecoder_next r inn hnext] at h
    rw [hnext] at hprogress
    obtain rfl := congrArg (fun p => p.2.1) h
    obtain rfl := congrArg (fun p => p.2.2) h
    cases w with
    | got m => cases h
    | more => cases h
    | error => exact wsDecoder_next r₁ inn₁ hprogress

-- The messages in a stream of bytes that starts a connection.
def wsSpoken (max : Nat) (masked : Bool) (stream : Bytes) : List WsMsg :=
    wsDecoder.spoken (rdWsReaderInit max masked) stream

theorem Legal.spoken {frames : List Fragment} {msgs : List WsMsg} (h : Legal none frames msgs) {max : Nat}
    {masked : Bool}
    (hmax : max < 2 ^ 64) (hkeyed : ∀ f ∈ frames, f.Keyed masked) (hsize : ∀ m ∈ msgs, m.data.length ≤ max) :
    wsSpoken max masked (frames.flatMap Fragment.bytes) = msgs := by
  obtain ⟨r', -, -, hyields⟩ := h.yields (rdWsReaderInit max masked) rfl hmax hkeyed hsize
  exact hyields.spoken wsDecoder_draining

end TetherDesk.Net
