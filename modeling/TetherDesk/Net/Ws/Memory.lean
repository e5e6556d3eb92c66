import TetherDesk.Net.Ws.Spoken
import TetherDesk.Lib.Buffer
import TetherDesk.Lib.Transition
import Mathlib.Data.Nat.Bitwise

namespace TetherDesk.Net

open TetherDesk.Lib TetherDesk.Lib.Buffer TetherDesk.Lib.Transition

-- rd_ws_next over the arrays it works on; none is an access outside one of them.
structure WsMem where
  reader : WsReader
  ctrl : Bytes
  inn : Bytes

-- One pass of the loop: around again, or the return value.
inductive WsRound
  | again (m : WsMem)
  | returned (w : WsNext) (m : WsMem)

def WsRound.mem : WsRound → WsMem
  | .again m => m
  | .returned _ m => m

-- size_t and uint64_t addition of a header's length and what the header says.
def addSize (h len : Nat) : Nat := (h + len) % 2 ^ 64

-- The length in a header and where it ends, none for return 0.
def wsLengthAt (inn : Bytes) (len : Nat) : Option (Option (Nat × Nat)) :=
  if len = 126 then
    if inn.length < 4 then some none
    else do
      let p ← slice inn 2 2
      some (some (be p, 4))
  else if len = 127 then
    if inn.length < 10 then some none
    else do
      let p ← slice inn 2 8
      some (some (be p, 10))
  else some (some (len, 2))

-- payload[i] ^= key[i & 3] in place.
def unmaskAt (inn key : Bytes) (h len : Nat) : Option Bytes :=
  if h + len ≤ inn.length then some (inn.take h ++ maskBytes key ((inn.drop h).take len) ++
    inn.drop (h + len)) else none

-- memcpy to the control buffer.
def ctrlAt (ctrl payload : Bytes) : Option Bytes :=
  if payload.length ≤ ctrl.length then some (payload ++ ctrl.drop payload.length) else none

def wsControlAt (m : WsMem) (fin : Bool) (opcode h len : Nat) : Option WsRound :=
  if !fin ∨ len > 125 then some (.returned .error m)
  else do
    let payload ← slice m.inn h len
    let ctrl ← ctrlAt m.ctrl payload
    some (.returned (.got ⟨opcode, ctrl.take len⟩) { m with
      ctrl := ctrl, inn := rdBufConsume m.inn (addSize h len) })

-- The fragment goes behind the message under assembly, which is in memory already.
def wsAppendAt (m : WsMem) (fin : Bool) (h len : Nat) : Option WsRound :=
  if m.reader.assembly.length + len > m.reader.maxMessage then some (.returned .error m)
  else do
    let payload ← slice m.inn h len
    let r := { m.reader with assembly := m.reader.assembly ++ payload }
    let inn := rdBufConsume m.inn (addSize h len)
    if !fin then some (.again { m with reader := r, inn := inn })
    else
      some (.returned (.got ⟨r.assemblyOpcode.getD 0, r.assembly⟩)
        { m with reader := { r with assemblyOpcode := none }, inn := inn })

def wsFrameAt (m : WsMem) (fin : Bool) (opcode h len : Nat) : Option WsRound :=
  if opcode ≥ 0x8 then wsControlAt m fin opcode h len
  else if opcode = RD_WS_CONT then
    if m.reader.assemblyOpcode = none then some (.returned .error m) else wsAppendAt m fin h len
  else if opcode ≠ RD_WS_BINARY ∧ opcode ≠ RD_WS_TEXT then some (.returned .error m)
  else if m.reader.assemblyOpcode ≠ none then some (.returned .error m)
  else wsAppendAt { m with reader := { m.reader with assemblyOpcode := some opcode, assembly := [] } } fin h len

def wsPayloadAt (m : WsMem) (fin : Bool) (opcode h len : Nat) : Option WsRound :=
  if len > m.reader.maxMessage then some (.returned .error m)
  else if m.reader.expectMasked then
    if m.inn.length < h + 4 then some (.returned .more m)
    else do
      let key ← slice m.inn h 4
      if m.inn.length < addSize (h + 4) len then some (.returned .more m)
      else
        let inn ← unmaskAt m.inn key (h + 4) len
        wsFrameAt { m with inn := inn } fin opcode (h + 4) len
  else if m.inn.length < addSize h len then some (.returned .more m)
  else wsFrameAt m fin opcode h len

def wsRound (m : WsMem) : Option WsRound :=
  if m.inn.length < 2 then some (.returned .more m)
  else do
    let p₀ ← m.inn[0]?
    let p₁ ← m.inn[1]?
    if p₀ &&& 0x70 ≠ 0 then some (.returned .error m)
    else if p₁ &&& 0x80 ≠ (if m.reader.expectMasked then 0x80 else 0) then some (.returned .error m)
    else
      match ← wsLengthAt m.inn (p₁ &&& 0x7F).toNat with
      | none => some (.returned .more m)
      | some (len, h) => wsPayloadAt m (p₀ &&& 0x80 ≠ 0) (p₀ &&& 0x0F).toNat h len

-- rd_ws_next: every pass takes at least two bytes.
def wsNextAt : Nat → WsMem → Option (WsNext × WsMem)
  | 0, _ => none
  | fuel + 1, m =>
      match wsRound m with
      | none => none
      | some (.again m) => wsNextAt fuel m
      | some (.returned w m) => some (w, m)

def rdWsNextAt (m : WsMem) : Option (WsNext × WsMem) := wsNextAt (m.inn.length + 1) m

-- Calls until one returns 0 or -1, with the messages on the way.
def wsDrainAt : Nat → WsMem → Option (List WsMsg × Bool × WsMem)
  | 0, _ => none
  | fuel + 1, m => do
      match ← rdWsNextAt m with
      | (.got msg, m) =>
          let (msgs, failed, m) ← wsDrainAt fuel m
          some (msg :: msgs, failed, m)
      | (.more, m) => some ([], false, m)
      | (.error, m) => some ([], true, m)

-- The messages of a stream that comes in chunks, and whether it ends with -1.
def wsFeedAt : WsMem → List Bytes → Option (List WsMsg × Bool)
  | _, [] => some ([], false)
  | m, chunk :: chunks => do
      let m := { m with inn := m.inn ++ chunk }
      match ← wsDrainAt (m.inn.length + 1) m with
      | (msgs, true, _) => some (msgs, true)
      | (msgs, false, m) =>
          let (more, failed) ← wsFeedAt m chunks
          some (msgs ++ more, failed)

-- The array of control payloads as it may be found.
def wsStart (max : Nat) (masked : Bool) (ctrl : Bytes) : WsMem := ⟨rdWsReaderInit max masked, ctrl, []⟩

-- A limit under which no header length wraps around.
def HeaderFits (max : Nat) (masked : Bool) : Prop := max + (if masked then 14 else 10) < 2 ^ 64

-- A reader as it is between two passes: the assembly within the limit, and the
-- control buffer of 125 bytes.
structure WsMem.Sound (max : Nat) (masked : Bool) (m : WsMem) : Prop where
  limit : m.reader.maxMessage = max
  role : m.reader.expectMasked = masked
  assembly : m.reader.assembly.length ≤ max
  ctrl : m.ctrl.length = 125

-- A frame of the input lies at h, unmasked, with the rest of the input behind it.
structure Framed (m : WsMem) (f : WsFrame) (inn : Bytes) (h : Nat) : Prop where
  size : f.size = h + f.payload.length
  small : f.size < 2 ^ 64
  payload : slice inn h f.payload.length = some f.payload
  rest : inn.drop f.size = m.inn.drop f.size

section Round

theorem mask_bit (b : UInt8) (masked : Bool) :
    b &&& 0x80 ≠ (if masked then 0x80 else 0) ↔ (b &&& 0x80 ≠ 0) ≠ (masked = true) := by
  have hb : b &&& 0x80 = 0 ∨ b &&& 0x80 = 0x80 := by
    rw [← UInt8.toNat_inj, ← UInt8.toNat_inj, UInt8.toNat_and, show (0x80 : UInt8).toNat = 2 ^ 7 from rfl,
      Nat.and_two_pow]
    cases b.toNat.testBit 7
    · exact .inl rfl
    · exact .inr rfl
  cases masked <;> rcases hb with h | h <;> rw [h] <;> decide

variable {m : WsMem} {f : WsFrame}

theorem wsControlAt_eq {inn : Bytes} {h : Nat} (hframed : Framed m f inn h) (hctrl : m.ctrl.length = 125) :
    if f.fin = false ∨ f.payload.length > 125 then
      wsControlAt { m with inn := inn } f.fin f.opcode h f.payload.length =
        some (.returned .error { m with inn := inn })
    else
      ∃ ctrl, ctrl.length = 125 ∧ wsControlAt { m with inn := inn } f.fin f.opcode h f.payload.length =
        some (.returned (.got ⟨f.opcode, f.payload⟩) { m with ctrl := ctrl, inn := m.inn.drop f.size }) := by
  unfold wsControlAt
  by_cases hbad : f.fin = false ∨ f.payload.length > 125
  · rw [if_pos hbad, if_pos (by simpa using hbad)]
  · rw [if_neg hbad, if_neg (by simpa using hbad), hframed.payload]
    have hshort : f.payload.length ≤ 125 := by omega
    have hsize := hframed.size
    refine ⟨f.payload ++ m.ctrl.drop f.payload.length, by rw [List.length_append, List.length_drop]; omega, ?_⟩
    have hstored : ctrlAt m.ctrl f.payload = some (f.payload ++ m.ctrl.drop f.payload.length) := if_pos (by omega)
    have hend : addSize h f.payload.length = f.size := by
      unfold addSize
      rw [← hsize, Nat.mod_eq_of_lt hframed.small]
    simp only [Option.bind_eq_bind, Option.bind_some, hstored, hend, List.take_left, rdBufConsume_eq, hframed.rest]

theorem wsAppendAt_eq {inn : Bytes} {h : Nat} (hframed : Framed m f inn h) (r : WsReader) :
    wsAppendAt { m with reader := r, inn := inn } f.fin h f.payload.length =
      if r.assembly.length + f.payload.length > r.maxMessage then
        some (.returned .error { m with reader := r, inn := inn })
      else if f.fin then
        some (.returned (.got ⟨r.assemblyOpcode.getD 0, r.assembly ++ f.payload⟩)
          { m with
            reader := { r with assembly := r.assembly ++ f.payload, assemblyOpcode := none }
            inn := m.inn.drop f.size })
      else
        some (.again { m with
          reader := { r with assembly := r.assembly ++ f.payload }
          inn := m.inn.drop f.size }) := by
  have hend : addSize h f.payload.length = f.size := by
    unfold addSize
    rw [← hframed.size, Nat.mod_eq_of_lt hframed.small]
  unfold wsAppendAt
  dsimp only
  by_cases hlong : r.assembly.length + f.payload.length > r.maxMessage
  · rw [if_pos hlong, if_pos hlong]
  · rw [if_neg hlong, if_neg hlong, hframed.payload, hend, rdBufConsume_eq, hframed.rest]
    cases f.fin <;> rfl

-- A data frame goes through the checks of wsAssemble; where these fail the buffers are
-- as sound as before.
theorem wsFrameAt_eq {inn : Bytes} {h max : Nat} {masked : Bool} (hframed : Framed m f inn h)
    (hsound : m.Sound max masked)
    (hdata : f.opcode < 0x8) :
    match wsAssemble m.reader f with
    | none => ∃ m' : WsMem, m'.Sound max masked ∧
        wsFrameAt { m with inn := inn } f.fin f.opcode h f.payload.length = some (.returned .error m')
    | some r =>
        wsFrameAt { m with inn := inn } f.fin f.opcode h f.payload.length =
          if f.fin then
            some (.returned (.got ⟨r.assemblyOpcode.getD 0, r.assembly⟩)
              { m with reader := { r with assemblyOpcode := none }, inn := m.inn.drop f.size })
          else some (.again { m with reader := r, inn := m.inn.drop f.size }) := by
  have hgiven : ({ m with inn := inn } : WsMem).Sound max masked :=
    ⟨hsound.limit, hsound.role, hsound.assembly, hsound.ctrl⟩
  unfold wsFrameAt wsAssemble
  rw [if_neg (show ¬ f.opcode ≥ 0x8 by omega)]
  dsimp only
  by_cases hcont : f.opcode = RD_WS_CONT
  · rw [if_pos hcont, if_pos hcont]
    cases hopcode : m.reader.assemblyOpcode with
    | none => exact ⟨_, hgiven, if_pos rfl⟩
    | some opcode =>
        rw [if_neg (by simp), wsAppendAt_eq hframed m.reader]
        dsimp only
        by_cases hlong : m.reader.assembly.length + f.payload.length > m.reader.maxMessage
        · rw [if_pos hlong, if_pos hlong]
          exact ⟨_, hgiven, rfl⟩
        · rw [if_neg hlong, if_neg hlong]
  · rw [if_neg hcont, if_neg hcont]
    by_cases hkind : f.opcode ≠ RD_WS_BINARY ∧ f.opcode ≠ RD_WS_TEXT
    · rw [if_pos hkind, if_pos hkind]
      exact ⟨_, hgiven, rfl⟩
    rw [if_neg hkind, if_neg hkind]
    cases hopcode : m.reader.assemblyOpcode with
    | some opcode => exact ⟨_, hgiven, if_pos (by simp)⟩
    | none =>
        rw [if_neg (by simp), wsAppendAt_eq hframed]
        dsimp only
        by_cases hlong : ([] : Bytes).length + f.payload.length > m.reader.maxMessage
        · rw [if_pos hlong, if_pos hlong]
          refine ⟨{ m with reader := { m.reader with
            assemblyOpcode := some f.opcode, assembly := [] }, inn := inn }, ?_, rfl⟩
          exact ⟨hsound.limit, hsound.role, Nat.zero_le _, hsound.ctrl⟩
        · rw [if_neg hlong, if_neg hlong]

theorem slice_some {α : Type} {src : List α} {i n : Nat} (h : i + n ≤ src.length) : slice src i n =
    some ((src.drop i).take n) :=
  if_pos h

theorem unmaskAt_framed {key : Bytes} {h len : Nat} (hin : h + len ≤ m.inn.length) (hsmall : h + len < 2 ^ 64)
    (fin : Bool)
    (opcode : Nat) :
    ∃ inn, unmaskAt m.inn key h len = some inn ∧
      Framed m ⟨fin, opcode, maskBytes key ((m.inn.drop h).take len), h + len⟩ inn h := by
  have hlength : (maskBytes key ((m.inn.drop h).take len)).length = len := by
    rw [maskBytes_length, List.length_take, List.length_drop]
    omega
  have hhead : (m.inn.take h).length = h := by
    rw [List.length_take]
    omega
  refine ⟨_, if_pos hin, (congrArg (h + ·) hlength).symm, hsmall, ?_, ?_⟩
  · dsimp only
    rw [hlength, slice_some (by simp [hlength, hhead]), List.append_assoc, List.drop_left' hhead,
      List.take_left' hlength]
  · dsimp only
    rw [List.drop_left' (by rw [List.length_append, hhead, hlength])]

-- The body of a frame, under a limit that keeps the lengths from wrapping.
theorem wsPayloadAt_eq {max h len : Nat} {masked : Bool} (hsound : m.Sound max masked)
    (hfits : HeaderFits max masked)
    (hh : h ≤ 10) (hin : h ≤ m.inn.length) (fin : Bool) (opcode : Nat)
    (hfin : fin = decide (byteAt m.inn 0 &&& 0x80 ≠ 0)) (hopcode : opcode = (byteAt m.inn 0 &&& 0x0F).toNat) :
    match wsPayload m.reader m.inn h len with
    | .more => wsPayloadAt m fin opcode h len = some (.returned .more m)
    | .error => wsPayloadAt m fin opcode h len = some (.returned .error m)
    | .frame f => ∃ inn h', Framed m f inn h' ∧
        wsPayloadAt m fin opcode h len = wsFrameAt { m with inn := inn } f.fin f.opcode h' f.payload.length := by
  have hlimit := hsound.limit
  have hrole := hsound.role
  unfold HeaderFits at hfits
  unfold wsPayload wsPayloadAt
  dsimp only
  by_cases hlong : len > m.reader.maxMessage
  · rw [if_pos hlong, if_pos hlong]
  rw [if_neg hlong, if_neg hlong]
  by_cases hmasked : m.reader.expectMasked = true
  · have hsum : max + 14 < 2 ^ 64 := by simpa [← hrole, hmasked] using hfits
    have hend : addSize (h + 4) len = h + 4 + len := Nat.mod_eq_of_lt (by omega)
    rw [if_pos hmasked, if_pos hmasked]
    by_cases hkey : m.inn.length < h + 4
    · rw [if_pos hkey, if_pos hkey]
    rw [if_neg hkey, if_neg hkey, slice_some (by omega), hend]
    by_cases hbody : m.inn.length < h + 4 + len
    · rw [if_pos hbody]
      exact if_pos hbody
    rw [if_neg hbody]
    obtain ⟨inn, hunmask, hframed⟩ :=
      @unmaskAt_framed m ((m.inn.drop h).take 4) (h + 4) len (by omega) (by omega) fin opcode
    rw [hfin, hopcode] at hframed
    have hlength : (maskBytes ((m.inn.drop h).take 4) ((m.inn.drop (h + 4)).take len)).length = len := by
      rw [maskBytes_length, List.length_take, List.length_drop]
      omega
    refine ⟨inn, h + 4, hframed, ?_⟩
    dsimp only
    rw [hlength, Option.bind_eq_bind, Option.bind_some, if_neg hbody, hunmask, hfin, hopcode]
    rfl
  · have hsum : max + 10 < 2 ^ 64 := by simpa [← hrole, hmasked] using hfits
    have hend : addSize h len = h + len := Nat.mod_eq_of_lt (by omega)
    rw [if_neg hmasked, if_neg hmasked, hend]
    by_cases hbody : m.inn.length < h + len
    · rw [if_pos hbody, if_pos hbody]
    rw [if_neg hbody, if_neg hbody]
    have hlength : ((m.inn.drop h).take len).length = len := by
      rw [List.length_take, List.length_drop]
      omega
    refine ⟨m.inn, h, ⟨?_, ?_, ?_, rfl⟩, ?_⟩
    · dsimp only
      rw [hlength]
    · dsimp only
      omega
    · dsimp only
      rw [hlength, slice_some (by omega)]
    · dsimp only
      rw [hlength, hfin, hopcode]

theorem wsRound_parse {max : Nat} {masked : Bool} (hsound : m.Sound max masked) (hfits : HeaderFits max masked) :
    match wsParse m.reader m.inn with
    | .more => wsRound m = some (.returned .more m)
    | .error => wsRound m = some (.returned .error m)
    | .frame f => ∃ inn h, Framed m f inn h ∧
        wsRound m = wsFrameAt { m with inn := inn } f.fin f.opcode h f.payload.length := by
  unfold wsParse wsRound
  by_cases hshort : m.inn.length < 2
  · rw [if_pos hshort, if_pos hshort]
  have hbyte : ∀ i < 2, m.inn[i]? = some (byteAt m.inn i) := by
    intro i hi
    rw [byteAt, List.getD_eq_getElem?_getD, List.getElem?_eq_getElem (by omega)]
    rfl
  rw [if_neg hshort, if_neg hshort, hbyte 0 (by omega), hbyte 1 (by omega)]
  simp only [Option.bind_eq_bind, Option.bind_some]
  by_cases hrsv : byteAt m.inn 0 &&& 0x70 ≠ 0
  · rw [if_pos hrsv, if_pos hrsv]
  rw [if_neg hrsv, if_neg hrsv]
  by_cases hmask : (byteAt m.inn 1 &&& 0x80 ≠ 0) ≠ m.reader.expectMasked
  · rw [if_pos hmask, if_pos ((mask_bit _ _).mpr hmask)]
  rw [if_neg hmask, if_neg (fun h => hmask ((mask_bit _ _).mp h))]
  generalize (byteAt m.inn 1 &&& 0x7F).toNat = len
  unfold wsLengthAt
  by_cases h126 : len = 126
  · rw [if_pos h126, if_pos h126]
    by_cases hmore : m.inn.length < 4
    · rw [if_pos hmore, if_pos hmore]
      rfl
    rw [if_neg hmore, if_neg hmore, slice_some (by omega)]
    exact wsPayloadAt_eq hsound hfits (by omega) (by omega) _ _ rfl rfl
  rw [if_neg h126, if_neg h126]
  by_cases h127 : len = 127
  · rw [if_pos h127, if_pos h127]
    by_cases hmore : m.inn.length < 10
    · rw [if_pos hmore, if_pos hmore]
      rfl
    rw [if_neg hmore, if_neg hmore, slice_some (by omega)]
    exact wsPayloadAt_eq hsound hfits (by omega) (by omega) _ _ rfl rfl
  rw [if_neg h127, if_neg h127]
  exact wsPayloadAt_eq hsound hfits (by omega) (by omega) _ _ rfl rfl

end Round

-- A return value that is the one of the reader on lists, with what it leaves unless it
-- is -1.
structure Agrees (p : WsNext × WsReader × Bytes) (w : WsNext) (m : WsMem) : Prop where
  value : w = p.1
  left : w ≠ .error → (m.reader, m.inn) = p.2

-- What a pass does to sound buffers.
inductive RoundOutcome (max : Nat) (masked : Bool) (m : WsMem) : Prop
  | again (m' : WsMem) (round : wsRound m = some (.again m')) (sound : m'.Sound max masked)
      (shorter : m'.inn.length < m.inn.length) (same : rdWsNext m.reader m.inn = rdWsNext m'.reader m'.inn)
  | returned (w : WsNext) (m' : WsMem) (round : wsRound m = some (.returned w m')) (sound : m'.Sound max masked)
      (agrees : Agrees (rdWsNext m.reader m.inn) w m') (bounded : ∀ msg, w = .got msg →
        msg.data.length ≤ Nat.max max 125)

section Calls

variable {max : Nat} {masked : Bool} (hfits : HeaderFits max masked)

include hfits

theorem wsRound_outcome {m : WsMem} (hsound : m.Sound max masked) : RoundOutcome max masked m := by
  have hround := wsRound_parse hsound hfits
  have hnext := rdWsNext_eq m.reader m.inn
  cases hparse : wsParse m.reader m.inn with
  | more =>
      rw [hparse] at hround hnext
      exact .returned .more m hround hsound ⟨by rw [hnext], fun _ => by rw [hnext]⟩ nofun
  | error =>
      rw [hparse] at hround hnext
      exact .returned .error m hround hsound ⟨by rw [hnext], fun h => absurd rfl h⟩ nofun
  | frame f =>
      obtain ⟨hlow, hhigh⟩ := wsParse_size m.reader m.inn hparse
      rw [hparse] at hround hnext
      obtain ⟨inn, h, hframed, hround⟩ := hround
      dsimp only at hnext
      have hgiven : ∀ inn, ({ m with inn := inn } : WsMem).Sound max masked := fun inn =>
        ⟨hsound.limit, hsound.role, hsound.assembly, hsound.ctrl⟩
      by_cases hcontrol : f.opcode ≥ 0x8
      · have hframe : wsFrameAt { m with inn := inn } f.fin f.opcode h f.payload.length =
            wsControlAt { m with inn := inn } f.fin f.opcode h f.payload.length := if_pos hcontrol
        have hcases := wsControlAt_eq hframed hsound.ctrl
        rw [if_pos hcontrol] at hnext
        rw [hframe] at hround
        by_cases hbad : f.fin = false ∨ f.payload.length > 125
        · rw [if_pos hbad] at hcases hnext
          exact .returned .error _ (hround.trans hcases) (hgiven inn) ⟨by rw [hnext], fun h => absurd rfl h⟩ nofun
        · rw [if_neg hbad] at hcases hnext
          obtain ⟨ctrl, hctrl, hcases⟩ := hcases
          refine .returned _ _ (hround.trans hcases) ⟨hsound.limit, hsound.role, hsound.assembly, hctrl⟩
            ⟨by rw [hnext], fun _ => by rw [hnext]⟩ fun msg hmsg => ?_
          rw [← WsNext.got.inj hmsg]
          exact Nat.le_trans (by dsimp only; omega) (Nat.le_max_right max 125)
      rw [if_neg hcontrol] at hnext
      have hcases := wsFrameAt_eq hframed hsound (by omega)
      cases hassemble : wsAssemble m.reader f with
      | none =>
          rw [hassemble] at hcases hnext
          obtain ⟨m', hsound', hcases⟩ := hcases
          exact .returned .error m' (hround.trans hcases) hsound' ⟨by rw [hnext], fun h => absurd rfl h⟩ nofun
      | some r =>
          rw [hassemble] at hcases hnext
          obtain ⟨hlimit, hassembly⟩ := wsAssemble_limit hassemble
          have hrole := wsAssemble_role hassemble
          rw [hsound.limit] at hlimit hassembly
          rw [hsound.role] at hrole
          dsimp only at hcases hnext
          by_cases hfin : f.fin = true
          · rw [if_pos hfin] at hcases hnext
            refine .returned _ _ (hround.trans hcases) ⟨hlimit, hrole, hassembly, hsound.ctrl⟩
              ⟨by rw [hnext], fun _ => by rw [hnext]⟩ fun msg hmsg => ?_
            rw [← WsNext.got.inj hmsg]
            exact Nat.le_trans hassembly (Nat.le_max_left max 125)
          · rw [if_neg hfin] at hcases hnext
            refine .again _ (hround.trans hcases) ⟨hlimit, hrole, hassembly, hsound.ctrl⟩ ?_ hnext
            dsimp only
            rw [List.length_drop]
            omega

theorem wsNextAt_agrees (fuel : Nat) {m : WsMem} (hsound : m.Sound max masked) (hfuel : m.inn.length < fuel) :
    ∃ w m', wsNextAt fuel m = some (w, m') ∧ m'.Sound max masked ∧ Agrees (rdWsNext m.reader m.inn) w m' := by
  induction fuel generalizing m with
  | zero => omega
  | succ fuel ih =>
      unfold wsNextAt
      cases wsRound_outcome hfits hsound with
      | again m' round sound shorter same =>
          rw [round, same]
          exact ih sound (by omega)
      | returned w m' round sound agrees =>
          rw [round]
          exact ⟨w, m', rfl, sound, agrees⟩

-- Draining the arrays is draining the lists.
theorem wsDrainAt_eq (fuel : Nat) {m : WsMem} (hsound : m.Sound max masked) (hfuel : m.inn.length < fuel) :
    ∃ m', wsDrainAt fuel m = some ((wsDecoder.drain m.reader m.inn).1, (wsDecoder.drain m.reader m.inn).2.1, m') ∧
      m'.Sound max masked ∧
      ((wsDecoder.drain m.reader m.inn).2.1 = false →
        (m'.reader, m'.inn) = (wsDecoder.drain m.reader m.inn).2.2) := by
  induction fuel generalizing m with
  | zero => omega
  | succ fuel ih =>
      obtain ⟨w, m', hcall, hsound', hagrees⟩ :=
        wsNextAt_agrees hfits (m.inn.length + 1) hsound (Nat.lt_succ_self _)
      unfold wsDrainAt rdWsNextAt
      rw [hcall]
      rcases hnext : rdWsNext m.reader m.inn with ⟨w', r', inn'⟩
      rw [hnext] at hagrees
      obtain rfl : w = w' := hagrees.value
      have hdecoded := wsDecoder_next m.reader m.inn hnext
      cases w with
      | got msg =>
          obtain ⟨rfl, rfl⟩ := Prod.mk.inj (hagrees.left nofun)
          have hshort := wsDecoder_draining.shrinks _ _ _ _ _ hdecoded
          obtain ⟨m'', hdrain, hsound'', hleft⟩ := ih hsound' (by omega)
          rw [Decoder.drain_got wsDecoder_draining hdecoded]
          refine ⟨m'', ?_, hsound'', hleft⟩
          dsimp only [Option.bind_eq_bind, Option.bind_some]
          rw [hdrain]
          rfl
      | more =>
          rw [Decoder.drain_more hdecoded]
          exact ⟨m', rfl, hsound', fun _ => hagrees.left nofun⟩
      | error =>
          rw [Decoder.drain_error hdecoded]
          exact ⟨m', rfl, hsound', nofun⟩

theorem wsFeedAt_eq (chunks : List Bytes) {m : WsMem} (hsound : m.Sound max masked) :
    wsFeedAt m chunks = some (wsDecoder.feed m.reader m.inn chunks) := by
  induction chunks generalizing m with
  | nil => rfl
  | cons chunk chunks ih =>
      have hgiven : ({ m with inn := m.inn ++ chunk } : WsMem).Sound max masked :=
        ⟨hsound.limit, hsound.role, hsound.assembly, hsound.ctrl⟩
      obtain ⟨m', hdrain, hsound', hleft⟩ :=
        wsDrainAt_eq hfits ((m.inn ++ chunk).length + 1) hgiven (Nat.lt_succ_self _)
      unfold wsFeedAt Decoder.feed
      dsimp only at hdrain hleft ⊢
      generalize wsDecoder.drain m.reader (m.inn ++ chunk) = drained at hdrain hleft ⊢
      obtain ⟨msgs, failed, r', inn'⟩ := drained
      rw [hdrain]
      cases failed with
      | true => rfl
      | false =>
          obtain ⟨rfl, rfl⟩ := Prod.mk.inj (hleft rfl)
          dsimp only [Option.bind_eq_bind, Option.bind_some]
          rw [ih hsound']
          rfl

end Calls

-- Bytes come in, and passes of rd_ws_next run.
inductive WsEvent
  | received (chunk : Bytes)
  | round

def wsRuns (max : Nat) (masked : Bool) : System WsMem WsEvent where
  init m := ∃ ctrl : Bytes, ctrl.length = 125 ∧ m = wsStart max masked ctrl
  step m e m' :=
    match e with
    | .received chunk => m' = { m with inn := m.inn ++ chunk }
    | .round => ∃ o, wsRound m = some o ∧ m' = o.mem

-- Parsing stays inside its arrays and limits at every moment, and comes back with the
-- same messages and verdict however a stream is cut.
structure WsSafe (max : Nat) (masked : Bool) : Prop where
  accesses : ∀ past m, Run (wsRuns max masked) past m → wsRound m ≠ none
  assembly : ∀ past m, Run (wsRuns max masked) past m → m.reader.assembly.length ≤ max
  messages : ∀ past m, Run (wsRuns max masked) past m → ∀ msg m', wsRound m = some (.returned (.got msg) m') →
    msg.data.length ≤ Nat.max max 125
  chunks : ∀ ctrl ctrl' : Bytes, ctrl.length = 125 → ctrl'.length = 125 → ∀ xs ys : List Bytes, xs.flatten =
    ys.flatten →
    ∃ result, wsFeedAt (wsStart max masked ctrl) xs = some result ∧
        wsFeedAt (wsStart max masked ctrl') ys = some result

section Safety

variable {max : Nat} {masked : Bool}

theorem start_sound {ctrl : Bytes} (h : ctrl.length = 125) : (wsStart max masked ctrl).Sound max masked :=
  ⟨rfl, rfl, Nat.zero_le _, h⟩

theorem run_sound (hfits : HeaderFits max masked) {past : List (WsMem × WsEvent)} {m : WsMem}
    (run : Run (wsRuns max masked) past m) : m.Sound max masked := by
  refine run.invariant (fun _ m => m.Sound max masked) ?_ ?_
  · rintro _ ⟨ctrl, hctrl, rfl⟩
    exact start_sound hctrl
  · intro _ m e m' hsound hstep
    cases e with
    | received chunk =>
        obtain rfl := hstep
        exact ⟨hsound.limit, hsound.role, hsound.assembly, hsound.ctrl⟩
    | round =>
        obtain ⟨o, hround, rfl⟩ := hstep
        cases wsRound_outcome hfits hsound with
        | again m' round sound =>
            obtain rfl := Option.some.inj (hround.symm.trans round)
            exact sound
        | returned w m' round sound =>
            obtain rfl := Option.some.inj (hround.symm.trans round)
            exact sound

theorem safe_of_fits (hfits : HeaderFits max masked) : WsSafe max masked := by
  refine ⟨fun past m run => ?_, fun past m run => (run_sound hfits run).assembly,
    fun past m run msg m' hround => ?_, ?_⟩
  · cases wsRound_outcome hfits (run_sound hfits run) with
    | again m' round => simp [round]
    | returned w m' round => simp [round]
  · cases wsRound_outcome hfits (run_sound hfits run) with
    | again m' round =>
        rw [round] at hround
        cases hround
    | returned w m' round _ _ bounded =>
        rw [round] at hround
        cases hround
        exact bounded msg rfl
  · intro ctrl ctrl' hctrl hctrl' xs ys hsame
    have hstopped : wsDecoder.next (rdWsReaderInit max masked) [] = (.more, rdWsReaderInit max masked, []) := rfl
    have hfeed := fun chunks => Decoder.feed_eq wsDecoder_incremental wsDecoder_draining _ _ chunks hstopped
    refine ⟨_, wsFeedAt_eq hfits xs (start_sound hctrl), ?_⟩
    rw [wsFeedAt_eq hfits ys (start_sound hctrl')]
    exact congrArg some ((hfeed ys).trans (by rw [← hsame, ← hfeed xs]; rfl))

end Safety

section Wrap

variable {max : Nat} {ctrl : Bytes}

-- A header that says so much that its own length wraps the sum around to 0.
def wrappingHeader : Bool → Bytes
  | true => [0x82, 0xFF] ++ be64 (2 ^ 64 - 14) ++ [0, 0, 0, 0]
  | false => [0x82, 0x7F] ++ be64 (2 ^ 64 - 10)

theorem wsRound_long (m : WsMem) (p₀ p₁ : UInt8) (ext rest : Bytes) (hinn : m.inn = p₀ :: p₁ :: (ext ++ rest))
    (hext : ext.length = 8) (hrsv : p₀ &&& 0x70 = 0)
    (hmask : p₁ &&& 0x80 = if m.reader.expectMasked then 0x80 else 0)
    (hlen : (p₁ &&& 0x7F).toNat = 127) :
    wsRound m = wsPayloadAt m (p₀ &&& 0x80 ≠ 0) (p₀ &&& 0x0F).toNat 10 (be ext) := by
  have hlength : m.inn.length = 10 + rest.length := by
    rw [hinn, List.length_cons, List.length_cons, List.length_append, hext]
    omega
  have hslice : slice m.inn 2 8 = some ext := by
    rw [slice_some (by omega), hinn]
    simp [← hext]
  have hfirst : m.inn[0]? = some p₀ := by rw [hinn]; rfl
  have hsecond : m.inn[1]? = some p₁ := by rw [hinn]; rfl
  unfold wsRound wsLengthAt
  rw [if_neg (by omega), hfirst, hsecond]
  simp only [Option.bind_eq_bind, Option.bind_some]
  rw [if_neg (by simpa using hrsv), if_neg (by simpa using hmask), hlen, if_neg (by omega), if_pos rfl,
    if_neg (by omega), hslice]
  rfl

theorem wsRound_wraps {masked : Bool} (h : ¬ HeaderFits max masked) :
    wsRound ⟨rdWsReaderInit max masked, ctrl, wrappingHeader masked⟩ = none := by
  unfold HeaderFits at h
  cases masked with
  | true =>
      rw [if_pos rfl] at h
      rw [wsRound_long _ 0x82 0xFF (be64 (2 ^ 64 - 14)) [0, 0, 0, 0] rfl rfl rfl rfl rfl, be_be64 _ (by omega)]
      have hkey : slice (wrappingHeader true) 10 4 = some [0, 0, 0, 0] := rfl
      have hsum : addSize (10 + 4) (2 ^ 64 - 14) = 0 := rfl
      have hout : unmaskAt (wrappingHeader true) [0, 0, 0, 0] (10 + 4) (2 ^ 64 - 14) = none := if_neg (by decide)
      unfold wsPayloadAt rdWsReaderInit
      dsimp only
      rw [if_neg (by omega), if_pos rfl, if_neg (by decide), hkey, Option.bind_eq_bind, Option.bind_some, hsum,
        if_neg (Nat.not_lt_zero _), hout]
      rfl
  | false =>
      rw [if_neg (by simp)] at h
      rw [wsRound_long _ 0x82 0x7F (be64 (2 ^ 64 - 10)) [] rfl rfl rfl rfl rfl, be_be64 _ (by omega)]
      have hsum : addSize 10 (2 ^ 64 - 10) = 0 := rfl
      have hout : slice (wrappingHeader false) 10 (2 ^ 64 - 10) = none := if_neg (by decide)
      unfold wsPayloadAt rdWsReaderInit wsFrameAt wsAppendAt
      dsimp only
      rw [if_neg (by omega), if_neg (by simp), hsum, if_neg (Nat.not_lt_zero _), if_neg (by decide),
        if_neg (by decide),
        if_neg (by decide), if_neg (by simp), List.length_nil, Nat.zero_add, if_neg (by omega), hout]
      rfl

theorem unsafe_of_wraps {masked : Bool} (h : ¬ HeaderFits max masked) : ¬ WsSafe max masked := by
  intro hsafe
  have hctrl : (List.replicate 125 0 : Bytes).length = 125 := List.length_replicate
  have hstep : (wsRuns max masked).step (wsStart max masked (List.replicate 125 0))
      (.received (wrappingHeader masked))
      ⟨rdWsReaderInit max masked, List.replicate 125 0, wrappingHeader masked⟩ := rfl
  exact hsafe.accesses _ _ (.next (.start ⟨_, hctrl, rfl⟩) hstep) (wsRound_wraps h)

end Wrap

-- Parsing is safe exactly under the limits with which no header length wraps around.
theorem ws_parsing_safe (max : UInt64) (masked : Bool) : WsSafe max.toNat masked ↔ HeaderFits max.toNat masked :=
  ⟨fun hsafe => by_contra fun h => unsafe_of_wraps h hsafe, safe_of_fits⟩

-- A frame of 14 bytes that claims 2 ^ 64 - 14 more, when there is no limit.
theorem ws_parsing_unlimited : ¬ ∀ (max : UInt64) (masked : Bool), WsSafe max.toNat masked := fun halways =>
  unsafe_of_wraps (by unfold HeaderFits; decide) (halways (UInt64.ofNat (2 ^ 64 - 1)) true)

end TetherDesk.Net
