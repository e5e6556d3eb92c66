import TetherDesk.Lib.Decoder
import TetherDesk.Net.Ws.Frames

namespace TetherDesk.Net

open TetherDesk.Lib

def WsNext.outcome : WsNext → Outcome WsMsg
  | .got m => .got m
  | .more => .more
  | .error => .error

def wsDecoder : Decoder WsReader UInt8 WsMsg := ⟨fun r inn => ((rdWsNext r inn).1.outcome, (rdWsNext r inn).2)⟩

section Append

variable (r : WsReader) (inn x : Bytes)

theorem rdBufConsume_eq (n : Nat) : rdBufConsume inn n = inn.drop n := by
  unfold rdBufConsume
  split
  · next h => exact (List.drop_eq_nil_of_le h).symm
  · rfl

theorem byteAt_append {i : Nat} (h : i < inn.length) : byteAt (inn ++ x) i = byteAt inn i :=
    List.getD_append _ _ _ _ h

theorem slice_append {off n : Nat} (h : off + n ≤ inn.length) : ((inn ++ x).drop off).take n =
    (inn.drop off).take n := by
  rw [List.drop_append_of_le_length (by omega), List.take_append_of_le_length (by rw [List.length_drop]; omega)]

-- A frame or an error is seen at the same place whatever follows.
inductive Settled : WsParse → WsParse → Prop
  | frame (f : WsFrame) (low : 2 ≤ f.size) (high : f.size ≤ inn.length) : Settled (.frame f) (.frame f)
  | more (p : WsParse) : Settled .more p
  | error : Settled .error .error

theorem wsPayload_append (h len : Nat) (hh : 2 ≤ h) (hlow : 0 < inn.length) :
    Settled inn (wsPayload r inn h len) (wsPayload r (inn ++ x) h len) := by
  unfold wsPayload
  dsimp only
  rw [byteAt_append inn x hlow]
  by_cases hlen : len > r.maxMessage
  · rw [if_pos hlen, if_pos hlen]
    exact .error
  rw [if_neg hlen, if_neg hlen]
  by_cases hmasked : r.expectMasked = true
  · rw [if_pos hmasked, if_pos hmasked]
    by_cases hkey : inn.length < h + 4
    · rw [if_pos hkey]
      exact .more _
    by_cases hbody : inn.length < h + 4 + len
    · rw [if_neg hkey, if_pos hbody]
      exact .more _
    rw [if_neg hkey, if_neg hbody, if_neg (by rw [List.length_append]; omega),
      if_neg (by rw [List.length_append]; omega),
      slice_append inn x (by omega), slice_append inn x (by omega)]
    exact .frame _ (Nat.le_add_right_of_le (Nat.le_add_right_of_le hh)) (Nat.le_of_not_lt hbody)
  · rw [if_neg hmasked, if_neg hmasked]
    by_cases hbody : inn.length < h + len
    · rw [if_pos hbody]
      exact .more _
    rw [if_neg hbody, if_neg (by rw [List.length_append]; omega), slice_append inn x (by omega)]
    exact .frame _ (Nat.le_add_right_of_le hh) (Nat.le_of_not_lt hbody)

theorem wsParse_append : Settled inn (wsParse r inn) (wsParse r (inn ++ x)) := by
  by_cases hshort : inn.length < 2
  · unfold wsParse
    rw [if_pos hshort]
    exact .more _
  have hlong : ¬ (inn ++ x).length < 2 := by
    rw [List.length_append]
    omega
  unfold wsParse
  dsimp only
  rw [if_neg hshort, if_neg hlong, byteAt_append inn x (by omega), byteAt_append inn x (by omega)]
  generalize (byteAt inn 1 &&& 0x7F).toNat = len
  by_cases hrsv : byteAt inn 0 &&& 0x70 ≠ 0
  · rw [if_pos hrsv, if_pos hrsv]
    exact .error
  rw [if_neg hrsv, if_neg hrsv]
  by_cases hmask : (byteAt inn 1 &&& 0x80 ≠ 0) ≠ r.expectMasked
  · rw [if_pos hmask, if_pos hmask]
    exact .error
  rw [if_neg hmask, if_neg hmask]
  by_cases h126 : len = 126
  · rw [if_pos h126, if_pos h126]
    by_cases hmore : inn.length < 4
    · rw [if_pos hmore]
      exact .more _
    rw [if_neg hmore, if_neg (by rw [List.length_append]; omega), slice_append inn x (by omega)]
    exact wsPayload_append r inn x _ _ (by omega) (by omega)
  rw [if_neg h126, if_neg h126]
  by_cases h127 : len = 127
  · rw [if_pos h127, if_pos h127]
    by_cases hmore : inn.length < 10
    · rw [if_pos hmore]
      exact .more _
    rw [if_neg hmore, if_neg (by rw [List.length_append]; omega), slice_append inn x (by omega)]
    exact wsPayload_append r inn x _ _ (by omega) (by omega)
  rw [if_neg h127, if_neg h127]
  exact wsPayload_append r inn x _ _ (by omega) (by omega)

theorem wsParse_size {f : WsFrame} (h : wsParse r inn = .frame f) : 2 ≤ f.size ∧ f.size ≤ inn.length := by
  have hsettled := wsParse_append r inn []
  rw [List.append_nil, h] at hsettled
  cases hsettled with
  | frame _ low high => exact ⟨low, high⟩

end Append

section Next

-- The loop with the recursion written as a call.
theorem wsNextLoop_fuel (r : WsReader) (inn : Bytes) (n m : Nat) (hn : inn.length < n) (hm : inn.length < m) :
    wsNextLoop n r inn = wsNextLoop m r inn := by
  induction n generalizing r inn m with
  | zero => omega
  | succ n ih =>
      obtain ⟨m, rfl⟩ : ∃ k, m = k + 1 := ⟨m - 1, by omega⟩
      unfold wsNextLoop
      cases hparse : wsParse r inn with
      | more => rfl
      | error => rfl
      | frame f =>
          obtain ⟨hlow, hhigh⟩ := wsParse_size r inn hparse
          have hrest : (rdBufConsume inn f.size).length < inn.length := by
            rw [rdBufConsume_eq, List.length_drop]
            omega
          have hnext : ∀ r, wsNextLoop n r (rdBufConsume inn f.size) = wsNextLoop m r (rdBufConsume inn f.size) :=
            fun r => ih r _ m (by omega) (by omega)
          simp only [hnext]

theorem rdWsNext_eq (r : WsReader) (inn : Bytes) :
    rdWsNext r inn =
      match wsParse r inn with
      | .more => (.more, r, inn)
      | .error => (.error, r, inn)
      | .frame f =>
          if f.opcode ≥ 0x8 then
            if f.fin = false ∨ f.payload.length > 125 then (.error, r, inn)
            else (.got ⟨f.opcode, f.payload⟩, r, inn.drop f.size)
          else
            match wsAssemble r f with
            | none => (.error, r, inn)
            | some r =>
                if f.fin then
                  (.got ⟨r.assemblyOpcode.getD 0, r.assembly⟩, { r with assemblyOpcode := none }, inn.drop f.size)
                else rdWsNext r (inn.drop f.size) := by
  unfold rdWsNext
  rw [wsNextLoop]
  cases hparse : wsParse r inn with
  | more => rfl
  | error => rfl
  | frame f =>
      obtain ⟨hlow, hhigh⟩ := wsParse_size r inn hparse
      have hrest : (inn.drop f.size).length < inn.length := by
        rw [List.length_drop]
        omega
      have hnext : ∀ r, wsNextLoop inn.length r (inn.drop f.size) =
          wsNextLoop ((inn.drop f.size).length + 1) r (inn.drop f.size) :=
        fun r => wsNextLoop_fuel r _ _ _ hrest (Nat.lt_succ_self _)
      dsimp only
      rw [rdBufConsume_eq]
      cases wsAssemble r f with
      | none => rfl
      | some r₁ =>
          dsimp only
          rw [hnext]

-- rd_ws_next on a longer buffer.
theorem rdWsNext_append (r : WsReader) (inn x : Bytes) :
    match rdWsNext r inn with
    | (.got m, r', inn') => rdWsNext r (inn ++ x) = (.got m, r', inn' ++ x)
    | (.more, r', inn') => rdWsNext r (inn ++ x) = rdWsNext r' (inn' ++ x)
    | (.error, _, _) => (rdWsNext r (inn ++ x)).1 = .error := by
  induction hn : inn.length using Nat.strong_induction_on generalizing r inn with
  | _ n ih =>
      have hsettled := wsParse_append r inn x
      have hlong := rdWsNext_eq r (inn ++ x)
      rw [rdWsNext_eq r inn]
      generalize wsParse r inn = p at hsettled ⊢
      generalize wsParse r (inn ++ x) = p' at hsettled hlong
      cases hsettled with
      | more => rfl
      | error => rw [hlong]
      | frame f hlow hhigh =>
          dsimp only at hlong ⊢
          rw [List.drop_append_of_le_length hhigh] at hlong
          by_cases hcontrol : f.opcode ≥ 0x8
          · rw [if_pos hcontrol] at hlong ⊢
            by_cases hbad : f.fin = false ∨ f.payload.length > 125
            · rw [if_pos hbad] at hlong ⊢
              exact congrArg Prod.fst hlong
            · rw [if_neg hbad] at hlong ⊢
              exact hlong
          rw [if_neg hcontrol] at hlong ⊢
          cases hassemble : wsAssemble r f with
          | none =>
              rw [hassemble] at hlong
              exact congrArg Prod.fst hlong
          | some r₁ =>
              rw [hassemble] at hlong
              dsimp only at hlong ⊢
              by_cases hfin : f.fin = true
              · rw [if_pos hfin] at hlong ⊢
                exact hlong
              · rw [if_neg hfin] at hlong ⊢
                rw [hlong]
                exact ih _ (by rw [List.length_drop]; omega) r₁ _ rfl

theorem wsDecoder_incremental : wsDecoder.Incremental := by
  have hcases : ∀ (r : WsReader) (inn : Bytes) o r' inn', wsDecoder.next r inn = (o, r', inn') →
      ∃ w : WsNext, w.outcome = o ∧ rdWsNext r inn = (w, r', inn') := by
    intro r inn o r' inn' h
    rw [← Prod.mk.eta (p := rdWsNext r inn)]
    rw [wsDecoder, Prod.mk.injEq] at h
    exact ⟨_, h.1, by rw [← h.2]⟩
  refine ⟨?_, ?_, ?_⟩
  · intro r inn m r' inn' x h
    obtain ⟨w, hw, hnext⟩ := hcases _ _ _ _ _ h
    have happend := rdWsNext_append r inn x
    rw [hnext] at happend
    cases w with
    | got m' =>
        obtain rfl := Outcome.got.inj hw
        unfold wsDecoder
        dsimp only at happend ⊢
        rw [happend]
        rfl
    | more => cases hw
    | error => cases hw
  · intro r inn r' inn' x h
    obtain ⟨w, hw, hnext⟩ := hcases _ _ _ _ _ h
    have happend := rdWsNext_append r inn x
    rw [hnext] at happend
    cases w with
    | got m => cases hw
    | more =>
        unfold wsDecoder
        dsimp only at happend ⊢
        rw [happend]
    | error => cases hw
  · intro r inn r' inn' x h
    obtain ⟨w, hw, hnext⟩ := hcases _ _ _ _ _ h
    have happend := rdWsNext_append r inn x
    rw [hnext] at happend
    cases w with
    | got m => cases hw
    | more => cases hw
    | error =>
        refine ⟨(rdWsNext r (inn ++ x)).2.1, (rdWsNext r (inn ++ x)).2.2, ?_⟩
        unfold wsDecoder
        dsimp only at happend ⊢
        rw [happend]
        rfl

end Next

section Legal

-- A legal sequence of frames, with the message under assembly before it and the
-- messages in the order in which they are complete.
inductive Legal : Option (Nat × Bytes) → List Fragment → List WsMsg → Prop
  | done : Legal none [] []
  | control {a frames msgs} (opcode : Nat) (mask : Option Bytes) (payload : Bytes)
      (kind : opcode = RD_WS_CLOSE ∨ opcode = RD_WS_PING ∨ opcode = RD_WS_PONG) (short : payload.length ≤ 125)
      (rest : Legal a frames msgs) : Legal a (⟨true, opcode, mask, payload⟩ :: frames) (⟨opcode, payload⟩ :: msgs)
  | whole {frames msgs} (opcode : Nat) (mask : Option Bytes) (payload : Bytes)
      (kind : opcode = RD_WS_BINARY ∨ opcode = RD_WS_TEXT) (rest : Legal none frames msgs) :
      Legal none (⟨true, opcode, mask, payload⟩ :: frames) (⟨opcode, payload⟩ :: msgs)
  | first {frames msgs} (opcode : Nat) (mask : Option Bytes) (payload : Bytes)
      (kind : opcode = RD_WS_BINARY ∨ opcode = RD_WS_TEXT) (rest : Legal (some (opcode, payload)) frames msgs) :
      Legal none (⟨false, opcode, mask, payload⟩ :: frames) msgs
  | middle {frames msgs} (opcode : Nat) (soFar : Bytes) (mask : Option Bytes) (payload : Bytes)
      (rest : Legal (some (opcode, soFar ++ payload)) frames msgs) :
      Legal (some (opcode, soFar)) (⟨false, RD_WS_CONT, mask, payload⟩ :: frames) msgs
  | last {frames msgs} (opcode : Nat) (soFar : Bytes) (mask : Option Bytes) (payload : Bytes)
      (rest : Legal none frames msgs) :
      Legal (some (opcode, soFar)) (⟨true, RD_WS_CONT, mask, payload⟩ :: frames)
        (⟨opcode, soFar ++ payload⟩ :: msgs)

-- A message under assembly is no longer than one that is still to come.
theorem Legal.fits {opcode max : Nat} {soFar : Bytes} {frames : List Fragment} {msgs : List WsMsg}
    (h : Legal (some (opcode, soFar)) frames msgs) (hsize : ∀ m ∈ msgs, m.data.length ≤ max) :
    soFar.length ≤ max := by
  generalize hassembly : some (opcode, soFar) = a at h
  induction h generalizing soFar with
  | done => cases hassembly
  | control _ _ _ _ _ _ ih => exact ih (fun m hm => hsize m (List.mem_cons_of_mem _ hm)) hassembly
  | whole => cases hassembly
  | first => cases hassembly
  | middle _ _ _ payload _ ih =>
      obtain ⟨rfl, rfl⟩ := Prod.mk.inj (Option.some.inj hassembly)
      have hlonger := ih hsize rfl
      rw [List.length_append] at hlonger
      omega
  | last _ _ _ payload _ _ =>
      obtain ⟨rfl, rfl⟩ := Prod.mk.inj (Option.some.inj hassembly)
      have hwhole := hsize _ List.mem_cons_self
      dsimp only at hwhole
      rw [List.length_append] at hwhole
      omega

-- The reader holds the message under assembly.
def Assembling (r : WsReader) : Option (Nat × Bytes) → Prop
  | none => r.assemblyOpcode = none
  | some (opcode, soFar) => r.assemblyOpcode = some opcode ∧ r.assembly = soFar

def SameReader (r r' : WsReader) : Prop := r'.maxMessage = r.maxMessage ∧ r'.expectMasked = r.expectMasked

theorem wsDecoder_next (r : WsReader) (inn : Bytes) {w : WsNext} {r' : WsReader} {inn' : Bytes}
    (h : rdWsNext r inn = (w, r', inn')) : wsDecoder.next r inn = (w.outcome, r', inn') := by
  unfold wsDecoder
  dsimp only
  rw [h]

variable (r : WsReader) (f : Fragment) (rest : Bytes)

-- One frame in front of the buffer.
theorem rdWsNext_control (hcontrol : 8 ≤ f.opcode) (hopcode : f.opcode < 16) (hfin : f.fin = true)
    (hshort : f.payload.length ≤ 125) (hkeyed : f.Keyed r.expectMasked) (hsize : f.payload.length ≤ r.maxMessage) :
    rdWsNext r (f.bytes ++ rest) = (.got ⟨f.opcode, f.payload⟩, r, rest) := by
  rw [rdWsNext_eq, wsParse_bytes r f rest hopcode hkeyed hsize (by omega)]
  dsimp only
  rw [if_pos hcontrol, if_neg (by simp [hfin, hshort]), List.drop_left]

theorem rdWsNext_data {r₁ : WsReader} (hopcode : f.opcode < 8) (hkeyed : f.Keyed r.expectMasked)
    (hsize : f.payload.length ≤ r.maxMessage) (h64 : f.payload.length < 2 ^ 64)
    (h : wsAssemble r ⟨f.fin, f.opcode, f.payload, f.bytes.length⟩ = some r₁) :
    rdWsNext r (f.bytes ++ rest) =
      if f.fin then (.got ⟨r₁.assemblyOpcode.getD 0, r₁.assembly⟩, { r₁ with assemblyOpcode := none }, rest)
      else rdWsNext r₁ rest := by
  rw [rdWsNext_eq, wsParse_bytes r f rest (by omega) hkeyed hsize h64]
  dsimp only
  rw [if_neg (by omega), h]
  dsimp only
  rw [List.drop_left]

theorem wsAssemble_first (size : Nat) {opcode : Nat} (fin : Bool) (payload : Bytes)
    (hidle : r.assemblyOpcode = none)
    (hkind : opcode = RD_WS_BINARY ∨ opcode = RD_WS_TEXT) (hsize : payload.length ≤ r.maxMessage) :
    wsAssemble r ⟨fin, opcode, payload, size⟩ =
      some { r with assemblyOpcode := some opcode, assembly := payload } := by
  have hdata : opcode ≠ RD_WS_CONT ∧ ¬(opcode ≠ RD_WS_BINARY ∧ opcode ≠ RD_WS_TEXT) := by
    rcases hkind with rfl | rfl <;> decide
  unfold wsAssemble
  dsimp only
  rw [if_neg hdata.1, if_neg hdata.2, hidle]
  dsimp only
  rw [if_neg (by simpa using hsize), List.nil_append]

theorem wsAssemble_next (size : Nat) {opcode : Nat} (fin : Bool) (payload : Bytes)
    (hopen : r.assemblyOpcode = some opcode)
    (hsize : (r.assembly ++ payload).length ≤ r.maxMessage) :
    wsAssemble r ⟨fin, RD_WS_CONT, payload, size⟩ = some { r with assembly := r.assembly ++ payload } := by
  rw [List.length_append] at hsize
  unfold wsAssemble
  dsimp only
  rw [if_pos rfl, hopen]
  dsimp only
  rw [if_neg (by omega), hopen]

-- The reader yields the messages of a legal sequence of frames.
theorem Legal.yields {a : Option (Nat × Bytes)} {frames : List Fragment} {msgs : List WsMsg}
    (h : Legal a frames msgs)
    (r : WsReader) (hassembling : Assembling r a) (hmax : r.maxMessage < 2 ^ 64)
    (hkeyed : ∀ f ∈ frames, f.Keyed r.expectMasked) (hsize : ∀ m ∈ msgs, m.data.length ≤ r.maxMessage) :
    ∃ r', SameReader r r' ∧ r'.assemblyOpcode = none ∧
        wsDecoder.Yields r (frames.flatMap Fragment.bytes) msgs r' [] := by
  induction h generalizing r with
  | done =>
      have hnext : rdWsNext r [] = (.more, r, []) := rdWsNext_eq r []
      exact ⟨r, ⟨rfl, rfl⟩, hassembling, .stop (wsDecoder_next r [] hnext)⟩
  | @control _ frames _ opcode mask payload hkind hshort _ ih =>
      have hhigh : 8 ≤ opcode ∧ opcode < 16 := by
        rcases hkind with rfl | rfl | rfl <;> decide
      have hnext := rdWsNext_control r ⟨true, opcode, mask, payload⟩ (frames.flatMap Fragment.bytes) hhigh.1
          hhigh.2 rfl hshort
        (hkeyed _ List.mem_cons_self) (hsize _ List.mem_cons_self)
      obtain ⟨r', hsame, hidle, hyields⟩ := ih r hassembling hmax (fun f hf => hkeyed f (List.mem_cons_of_mem _ hf))
        fun m hm => hsize m (List.mem_cons_of_mem _ hm)
      exact ⟨r', hsame, hidle, .step (wsDecoder_next r _ hnext) hyields⟩
  | @whole frames _ opcode mask payload hkind _ ih =>
      have hfits : payload.length ≤ r.maxMessage := hsize _ List.mem_cons_self
      have hlow : opcode < 8 := by
        rcases hkind with rfl | rfl <;> decide
      have hnext := rdWsNext_data r ⟨true, opcode, mask, payload⟩ (frames.flatMap Fragment.bytes) hlow
        (hkeyed _ List.mem_cons_self) hfits (by dsimp only; omega)
          (wsAssemble_first r _ true payload hassembling hkind hfits)
      obtain ⟨r', hsame, hidle, hyields⟩ := ih { r with assemblyOpcode := none, assembly := payload } rfl hmax
        (fun f hf => hkeyed f (List.mem_cons_of_mem _ hf)) fun m hm => hsize m (List.mem_cons_of_mem _ hm)
      exact ⟨r', hsame, hidle, .step (wsDecoder_next r _ hnext) hyields⟩
  | @first frames _ opcode mask payload hkind hrest ih =>
      have hfits := hrest.fits hsize
      have hlow : opcode < 8 := by
        rcases hkind with rfl | rfl <;> decide
      have hnext := rdWsNext_data r ⟨false, opcode, mask, payload⟩ (frames.flatMap Fragment.bytes) hlow
        (hkeyed _ List.mem_cons_self) hfits (by dsimp only; omega)
          (wsAssemble_first r _ false payload hassembling hkind hfits)
      obtain ⟨r', hsame, hidle, hyields⟩ :=
        ih { r with assemblyOpcode := some opcode, assembly := payload } ⟨rfl, rfl⟩ hmax
        (fun f hf => hkeyed f (List.mem_cons_of_mem _ hf)) hsize
      refine ⟨r', hsame, hidle, hyields.of_next ?_⟩
      unfold wsDecoder
      dsimp only
      rw [List.flatMap_cons, hnext]
      rfl
  | @middle frames _ opcode soFar mask payload hrest ih =>
      obtain ⟨hopen, rfl⟩ := hassembling
      have hfits := hrest.fits hsize
      have hpayload : payload.length ≤ r.maxMessage := by
        rw [List.length_append] at hfits
        omega
      have hnext := rdWsNext_data r ⟨false, RD_WS_CONT, mask, payload⟩ (frames.flatMap Fragment.bytes)
          (show RD_WS_CONT < 8 by decide)
        (hkeyed _ List.mem_cons_self) hpayload (by dsimp only; omega)
          (wsAssemble_next r _ false payload hopen hfits)
      obtain ⟨r', hsame, hidle, hyields⟩ := ih { r with assembly := r.assembly ++ payload } ⟨hopen, rfl⟩ hmax
        (fun f hf => hkeyed f (List.mem_cons_of_mem _ hf)) hsize
      refine ⟨r', hsame, hidle, hyields.of_next ?_⟩
      unfold wsDecoder
      dsimp only
      rw [List.flatMap_cons, hnext]
      rfl
  | @last frames _ opcode soFar mask payload _ ih =>
      obtain ⟨hopen, rfl⟩ := hassembling
      have hfits := hsize _ List.mem_cons_self
      have hpayload : payload.length ≤ r.maxMessage := by
        dsimp only at hfits
        rw [List.length_append] at hfits
        omega
      have hnext := rdWsNext_data r ⟨true, RD_WS_CONT, mask, payload⟩ (frames.flatMap Fragment.bytes)
          (show RD_WS_CONT < 8 by decide)
        (hkeyed _ List.mem_cons_self) hpayload (by dsimp only; omega) (wsAssemble_next r _ true payload hopen hfits)
      dsimp only at hnext
      rw [hopen] at hnext
      obtain ⟨r', hsame, hidle, hyields⟩ :=
        ih { r with assemblyOpcode := none, assembly := r.assembly ++ payload } rfl hmax
        (fun f hf => hkeyed f (List.mem_cons_of_mem _ hf)) fun m hm => hsize m (List.mem_cons_of_mem _ hm)
      exact ⟨r', hsame, hidle, .step (wsDecoder_next r _ hnext) hyields⟩

end Legal

section Claims

variable (max : Nat) (masked : Bool)

theorem rdWsNext_written (hmax : max < 2 ^ 64) (opcode : Nat) (payload rest : Bytes) (mask : Option Bytes)
    (hkind : opcode = RD_WS_BINARY ∨ opcode = RD_WS_TEXT)
    (hkeyed : Fragment.Keyed ⟨true, opcode, mask, payload⟩ masked)
    (hsize : payload.length ≤ max) (r : WsReader) (hr : r.maxMessage = max ∧ r.expectMasked = masked)
    (hidle : r.assemblyOpcode = none) :
    rdWsNext r (rdWsWriteFrame opcode payload mask ++ rest) =
      (.got ⟨opcode, payload⟩, { r with assembly := payload }, rest) := by
  obtain ⟨rfl, rfl⟩ := hr
  have hlow : opcode < 8 := by
    rcases hkind with rfl | rfl <;> decide
  rw [rdWsWriteFrame_bytes opcode payload mask (by omega),
    rdWsNext_data r ⟨true, opcode, mask, payload⟩ rest hlow hkeyed hsize (by dsimp only; omega)
      (wsAssemble_first r _ true payload hidle hkind hsize), ← hidle]
  rfl

-- Control frames leave the reader as it is.
theorem rdWsNext_writtenControl (opcode : Nat) (payload : Bytes) (mask : Option Bytes)
    (hkind : opcode = RD_WS_CLOSE ∨ opcode = RD_WS_PING ∨ opcode = RD_WS_PONG)
    (hkeyed : Fragment.Keyed ⟨true, opcode, mask, payload⟩ masked) (hshort : payload.length ≤ 125)
    (hsize : payload.length ≤ max) (rest : Bytes) (r : WsReader)
    (hr : r.maxMessage = max ∧ r.expectMasked = masked) :
    rdWsNext r (rdWsWriteFrame opcode payload mask ++ rest) = (.got ⟨opcode, payload⟩, r, rest) := by
  obtain ⟨rfl, rfl⟩ := hr
  have hhigh : 8 ≤ opcode ∧ opcode < 16 := by
    rcases hkind with rfl | rfl | rfl <;> decide
  rw [rdWsWriteFrame_bytes opcode payload mask hhigh.2]
  exact rdWsNext_control r ⟨true, opcode, mask, payload⟩ rest hhigh.1 hhigh.2 rfl hshort hkeyed hsize

-- A legal sequence of frames, cut and called in any way.
theorem wsDecoder_legal (hmax : max < 2 ^ 64) {frames : List Fragment} {msgs : List WsMsg}
    (hlegal : Legal none frames msgs)
    (hkeyed : ∀ f ∈ frames, f.Keyed masked) (hsize : ∀ m ∈ msgs, m.data.length ≤ max)
    (ops : List (Decoder.Op UInt8))
    (hops : ops.flatMap Decoder.Op.chunk = frames.flatMap Fragment.bytes) :
    ∃ os r', wsDecoder.run (ops ++ List.replicate (msgs.length + 1) .call) (rdWsReaderInit max masked) [] =
        (os ++ [.more], r', []) ∧ (∀ o ∈ os, o ≠ .error) ∧ os.filterMap Outcome.message = msgs := by
  obtain ⟨r', -, -, hyields⟩ := hlegal.yields (rdWsReaderInit max masked) rfl hmax hkeyed hsize
  rw [← hops, ← List.nil_append (ops.flatMap Decoder.Op.chunk)] at hyields
  obtain ⟨os, hrun, hok, hmsgs⟩ := Decoder.run_all wsDecoder_incremental ops hyields
  exact ⟨os, r', hrun, hok, hmsgs⟩

-- Whatever the fragmentation, the keys, the chunks and the times of the calls; and
-- each frame of rd_ws_write_frame by itself.
theorem ws_round_trip (hmax : max < 2 ^ 64) :
    (∀ frames msgs, Legal none frames msgs → (∀ f ∈ frames, f.Keyed masked) → (∀ m ∈ msgs, m.data.length ≤ max) →
      ∀ ops : List (Decoder.Op UInt8), ops.flatMap Decoder.Op.chunk = frames.flatMap Fragment.bytes →
        ∃ os r', wsDecoder.run (ops ++ List.replicate (msgs.length + 1) .call) (rdWsReaderInit max masked) [] =
            (os ++ [.more], r', []) ∧ (∀ o ∈ os, o ≠ .error) ∧ os.filterMap Outcome.message = msgs) ∧
    (∀ opcode payload mask, (opcode = RD_WS_BINARY ∨ opcode = RD_WS_TEXT) → payload.length ≤ max →
      Fragment.Keyed ⟨true, opcode, mask, payload⟩ masked →
      rdWsNext (rdWsReaderInit max masked) (rdWsWriteFrame opcode payload mask) =
        (.got ⟨opcode, payload⟩, { rdWsReaderInit max masked with assembly := payload }, [])) ∧
    ∀ opcode payload mask, (opcode = RD_WS_CLOSE ∨ opcode = RD_WS_PING ∨ opcode = RD_WS_PONG) →
      payload.length ≤ 125 → payload.length ≤ max → Fragment.Keyed ⟨true, opcode, mask, payload⟩ masked →
      rdWsNext (rdWsReaderInit max masked) (rdWsWriteFrame opcode payload mask) =
        (.got ⟨opcode, payload⟩, rdWsReaderInit max masked, []) := by
  refine ⟨fun frames msgs hlegal hkeyed hsize ops hops => wsDecoder_legal max masked hmax hlegal hkeyed hsize
    ops hops, ?_, ?_⟩
  · intro opcode payload mask hkind hsize hkeyed
    have hnext := rdWsNext_written max masked hmax opcode payload [] mask hkind hkeyed hsize
        (rdWsReaderInit max masked)
      ⟨rfl, rfl⟩ rfl
    rwa [List.append_nil] at hnext
  · intro opcode payload mask hkind hshort hsize hkeyed
    have hnext := rdWsNext_writtenControl max masked opcode payload mask hkind hkeyed hshort hsize []
      (rdWsReaderInit max masked) ⟨rfl, rfl⟩
    rwa [List.append_nil] at hnext

-- A text in two fragments with a ping between them, byte by byte.
theorem ws_round_trip_fragments :
    ∃ os r', wsDecoder.run ((Fragment.bytes ⟨false, RD_WS_TEXT, some [1, 2, 3, 4], ascii "he"⟩ ++
          Fragment.bytes ⟨true, RD_WS_PING, some [5, 6, 7, 8], ascii "p"⟩ ++
          Fragment.bytes ⟨true, RD_WS_CONT, some [9, 9, 9, 9], ascii "llo"⟩).flatMap (fun b =>
            [.append [b], .call]) ++
          List.replicate 3 .call) (rdWsReaderInit 200 true) [] = (os ++ [.more], r', []) ∧
      (∀ o ∈ os, o ≠ .error) ∧ os.filterMap Outcome.message =
        [⟨RD_WS_PING, ascii "p"⟩, ⟨RD_WS_TEXT, ascii "hello"⟩] := by
  have hlegal : Legal none [⟨false, RD_WS_TEXT, some [1, 2, 3, 4], ascii "he"⟩,
      ⟨true, RD_WS_PING, some [5, 6, 7, 8], ascii "p"⟩,
      ⟨true, RD_WS_CONT, some [9, 9, 9, 9], ascii "llo"⟩] [⟨RD_WS_PING, ascii "p"⟩, ⟨RD_WS_TEXT, ascii "hello"⟩] :=
    .first _ _ _ (.inr rfl) (.control _ _ _ (.inr (.inl rfl)) (by decide) (.last _ _ _ _ .done))
  refine (ws_round_trip 200 true (by decide)).1 _ _ hlegal ?_ (by decide) _ (by decide)
  intro f hf
  simp only [List.mem_cons, List.not_mem_nil, or_false] at hf
  rcases hf with rfl | rfl | rfl <;> exact ⟨rfl, by simp⟩

-- A ping longer than max_message is an error.
theorem ws_control_frame_over_limit :
    ¬ ∀ (max : Nat) (masked : Bool) frames msgs, max < 2 ^ 64 → Legal none frames msgs →
      (∀ f ∈ frames, f.Keyed masked) → (∀ m ∈ msgs, m.opcode < 8 → m.data.length ≤ max) →
      ∀ ops : List (Decoder.Op UInt8), ops.flatMap Decoder.Op.chunk = frames.flatMap Fragment.bytes →
        ∀ o ∈ (wsDecoder.run ops (rdWsReaderInit max masked) []).1, o ≠ .error := by
  intro halways
  have hlegal : Legal none [⟨true, RD_WS_PING, none, ascii "hello"⟩] [⟨RD_WS_PING, ascii "hello"⟩] :=
    .control _ _ _ (.inr (.inl rfl)) (by decide) .done
  refine halways 4 false _ _ (by decide) hlegal ?_ (by decide)
    [.append (Fragment.bytes ⟨true, RD_WS_PING, none, ascii "hello"⟩), .call] (by decide) .error ?_ rfl
  · intro f hf
    obtain rfl := List.mem_singleton.mp hf
    exact ⟨rfl, by simp⟩
  · decide

end Claims

end TetherDesk.Net
