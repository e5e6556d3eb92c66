import TetherDesk.Net.Link

namespace TetherDesk.Net

open TetherDesk.Lib

-- A pending record is the start of what its caller still has to send, cut at the
-- maximal record.
def Owes (tls : Option TlsOut) (buf : Bytes) : Prop :=
  ∀ t, tls = some t → t.left ≠ 0 → t.record = buf.take t.maxRecord

theorem owes_none (buf : Bytes) : Owes none buf := by
  intro t h
  cases h

theorem owes_idle {t : TlsOut} (h : t.left = 0) (buf : Bytes) : Owes (some t) buf := by
  rintro u ⟨rfl⟩ hleft
  exact absurd h hleft

theorem mbedtlsSslWrite_spec (t : TlsOut) (buf : Bytes) (answer : SockAnswer) (h : Owes (some t) buf) :
    match mbedtlsSslWrite t buf answer with
    | (.wrote n, t', got) => n = min buf.length t.maxRecord ∧ got = buf.take n ∧ t'.left = 0
    | (.wantWrite, t', got) | (.failed, t', got) => got = [] ∧ Owes (some t') buf := by
  have hmin : buf.take t.maxRecord = buf.take (min buf.length t.maxRecord) := by
    rw [Nat.min_comm]; exact List.take_eq_take_min
  unfold mbedtlsSslWrite
  by_cases hleft : t.left ≠ 0
  · have hrec : t.record = buf.take t.maxRecord := h t rfl hleft
    rw [if_pos hleft]
    cases answer with
    | fails => exact ⟨rfl, h⟩
    | accepts n =>
        dsimp only
        by_cases hn : n < t.left
        · rw [if_pos hn]
          refine ⟨rfl, ?_⟩
          rintro u ⟨rfl⟩ _
          exact hrec
        · rw [if_neg hn]
          exact ⟨rfl, hrec.trans hmin, rfl⟩
  · have hrec : ∀ left, Owes (some { t with record := buf.take t.maxRecord, left := left }) buf := by
      rintro left u ⟨rfl⟩ _
      rfl
    rw [if_neg hleft]
    cases answer with
    | fails => exact ⟨rfl, hrec _⟩
    | accepts n =>
        dsimp only
        by_cases hn : n < (buf.take t.maxRecord).length + t.overhead
        · rw [if_pos hn]
          exact ⟨rfl, hrec _⟩
        · rw [if_neg hn]
          exact ⟨by rw [List.length_take, Nat.min_comm], by rw [List.length_take, Nat.min_comm]; exact hmin, rfl⟩

-- Plain or TLS, what a send reports as taken is what the peer has been handed.
theorem link_inOrder : Writer.InOrder link Owes where
  sent := by
    intro tls buf answer n tls' got howes hsend
    cases tls with
    | none =>
        cases answer with
        | fails => simp [link, sendOn, rdNetSend] at hsend
        | accepts k =>
            simp only [link, sendOn, rdNetSend, Prod.mk.injEq, Option.some.injEq] at hsend
            obtain ⟨rfl, rfl, rfl⟩ := hsend
            exact ⟨rfl, by omega, owes_none _⟩
    | some t =>
        have hspec := mbedtlsSslWrite_spec t buf answer howes
        simp only [link, sendOn, rdTlsSend] at hsend
        generalize mbedtlsSslWrite t buf answer = res at hspec hsend
        obtain ⟨rc, t', got'⟩ := res
        cases rc with
        | wrote k =>
            obtain ⟨hk, hgot, hidle⟩ := hspec
            simp only [Prod.mk.injEq] at hsend
            obtain ⟨hn, rfl, rfl⟩ := hsend
            split_ifs at hn with hpos
            rw [Option.some.injEq] at hn
            subst hn
            exact ⟨hgot, by omega, owes_idle hidle _⟩
        | wantWrite =>
            simp only [Prod.mk.injEq, Option.some.injEq] at hsend
            obtain ⟨rfl, rfl, rfl⟩ := hsend
            exact ⟨by simpa using hspec.1, Nat.zero_le _, by simpa using hspec.2⟩
        | failed => simp at hsend
  failed := by
    intro tls buf answer tls' got howes hsend
    cases tls with
    | none =>
        cases answer with
        | fails =>
            simp only [link, sendOn, rdNetSend, Prod.mk.injEq] at hsend
            obtain ⟨-, rfl, rfl⟩ := hsend
            exact ⟨rfl, owes_none _⟩
        | accepts k => simp [link, sendOn, rdNetSend] at hsend
    | some t =>
        have hspec := mbedtlsSslWrite_spec t buf answer howes
        simp only [link, sendOn, rdTlsSend] at hsend
        generalize mbedtlsSslWrite t buf answer = res at hspec hsend
        obtain ⟨rc, t', got'⟩ := res
        cases rc with
        | wrote k =>
            obtain ⟨hk, hgot, hidle⟩ := hspec
            simp only [Prod.mk.injEq] at hsend
            obtain ⟨hn, rfl, rfl⟩ := hsend
            split_ifs at hn with hpos
            have hzero : k = 0 := by omega
            exact ⟨by rw [hgot, hzero]; rfl, owes_idle hidle _⟩
        | wantWrite => simp at hsend
        | failed =>
            simp only [Prod.mk.injEq, true_and] at hsend
            obtain ⟨rfl, rfl⟩ := hsend
            exact hspec

-- A TLS record shorter than the maximal record that is not yet sent.
def shortRecord : Option TlsOut → Bool
  | none => false
  | some t => t.left != 0 && t.record.length < t.maxRecord

theorem Owes.append {tls : Option TlsOut} {buf : Bytes} (h : Owes tls buf) (more : Bytes)
    (hsafe : more = [] ∨ shortRecord tls = false) : Owes tls (buf ++ more) := by
  rcases hsafe with rfl | hshort
  · rwa [List.append_nil]
  · rintro t rfl hleft
    have hrec := h t rfl hleft
    -- the pending record is a full one, so the buffer holds at least its bytes
    have hfull : t.maxRecord ≤ t.record.length := by simpa [shortRecord, hleft] using hshort
    rw [hrec, List.length_take] at hfull
    rw [hrec, List.take_append_of_le_length (by omega)]

end TetherDesk.Net
