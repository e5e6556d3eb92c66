import TetherDesk.Lib.CommandLine
import TetherDesk.Reader.Theorems

namespace TetherDesk.Client

open TetherDesk.Lib.CommandLine

-- The two calls of Windows between UTF-8 and UTF-16, on texts up to their NUL.
structure Conversion where
  multiByteToWideChar : Bytes → Wide
  wideCharToMultiByte : Wide → Bytes

def widen (conv : Conversion) (s : Bytes) : Wide := conv.multiByteToWideChar (cStr s)

-- No blank and no quote, and not empty.
def Bare (a : Wide) : Prop := a ≠ [] ∧ ∀ c ∈ a, c ≠ 32 ∧ c ≠ 9 ∧ c ≠ 34

instance : DecidablePred Bare := fun a => @instDecidableAnd _ _ inferInstance (List.decidableBAll _ a)

def quoteArgStep (o : Wide × Nat) (c : UInt16) : Wide × Nat :=
  if c = 92 then (o.1, o.2 + 1)
  else if c = 34 then (o.1 ++ slashes (o.2 * 2 + 1) ++ [c], 0)
  else (o.1 ++ slashes o.2 ++ [c], 0)

def quoteArg (a : Wide) : Wide :=
  if Bare a then a
  else
    let (o, bs) := a.foldl quoteArgStep ([34], 0)
    o ++ slashes (bs * 2) ++ [34]

-- What HostProcess::start asks Windows to run, with its output going to log.
structure Launch where
  cmd : Wide
  log : Wide

def hostStart (conv : Conversion) (exe : Bytes) (args : List Bytes) (logPath : Bytes) : Launch where
  cmd := args.foldl (fun cmd a => cmd ++ 32 :: quoteArg (widen conv a)) (quoteArg (widen conv exe))
  log := widen conv logPath

-- The arguments of a process, whose command line ends at a NUL.
def received (cmd : Wide) : List Wide := splitArgs (cmd.takeWhile (· ≠ 0))

section CommandLine

variable {a : Wide}

theorem isBlank_iff {c : UInt16} : isBlank c = true ↔ c = 32 ∨ c = 9 := decide_eq_true_iff

theorem Bare.spells (h : Bare a) : Spells a a := by
  refine spells_plain h.1 fun c hc => ?_
  obtain ⟨hspace, htab, hquote⟩ := h.2 c hc
  refine ⟨hquote, ?_⟩
  rw [← Bool.not_eq_true, isBlank_iff]
  rintro (h | h)
  · exact hspace h
  · exact htab h

-- The quoted text so far is read as the argument up to the backslashes that are pending
-- in the quoter, and the reader stays inside the quotes.
theorem foldl_quoteArgStep {done : List Wide} (rest : Wide) {o : Wide} {bs : Nat} {text : Wide}
    (ho : o.foldl Scan.step (.between done) = .within done text true 0) :
    ∃ o' bs' text', rest.foldl quoteArgStep (o, bs) = (o', bs') ∧
      o'.foldl Scan.step (.between done) = .within done text' true 0 ∧ text' ++ slashes bs' =
        text ++ slashes bs ++ rest := by
  induction rest generalizing o bs text with
  | nil => exact ⟨o, bs, text, rfl, ho, by rw [List.append_nil]⟩
  | cons c rest ih =>
      rw [List.foldl_cons]
      by_cases hslash : c = 92
      · subst hslash
        obtain ⟨o', bs', text', hfold, hscan, htext⟩ := @ih o (bs + 1) text ho
        refine ⟨o', bs', text', hfold, hscan, ?_⟩
        rw [htext, List.append_assoc, List.append_assoc, slashes_succ]
      have hread : ∀ n, (o ++ slashes n ++ [c]).foldl Scan.step (.between done) = word done text true n c := by
        intro n
        rw [List.append_assoc, List.foldl_append, ho, foldl_slashes, Nat.zero_add]
        rfl
      have hjoin : text ++ slashes bs ++ [c] ++ slashes 0 ++ rest = text ++ slashes bs ++ c :: rest := by
        rw [slashes_zero, List.append_nil, List.append_assoc _ [c]]
        rfl
      by_cases hquote : c = 34
      · subst hquote
        have ho' := hread (bs * 2 + 1)
        rw [word_literal] at ho'
        obtain ⟨o', bs', text', hfold, hscan, htext⟩ := @ih _ 0 _ ho'
        exact ⟨o', bs', text', hfold, hscan, htext.trans hjoin⟩
      · have ho' := hread bs
        rw [word_other hslash hquote (.inr rfl)] at ho'
        obtain ⟨o', bs', text', hfold, hscan, htext⟩ := @ih _ 0 _ ho'
        rw [quoteArgStep, if_neg hslash, if_neg hquote]
        exact ⟨o', bs', text', hfold, hscan, htext.trans hjoin⟩

theorem quoteArg_spells (a : Wide) : Spells (quoteArg a) a := by
  unfold quoteArg
  split_ifs with hbare
  · exact hbare.spells
  · intro done
    obtain ⟨o, bs, text, hfold, hscan, htext⟩ := @foldl_quoteArgStep done a [34] 0 [] rfl
    refine ⟨text ++ slashes bs, 0, ?_, ?_⟩
    · rw [hfold]
      dsimp only
      rw [List.append_assoc, List.foldl_append, hscan, foldl_slashes, Nat.zero_add, List.foldl_cons,
        Scan.step, word_toggle]
      rfl
    · rw [slashes_zero, List.append_nil, htext]
      rfl

theorem quoteArg_free (h : 0 ∉ a) : 0 ∉ quoteArg a := by
  have hfold : ∀ (rest o : Wide) (bs : Nat), 0 ∉ o → 0 ∉ rest → 0 ∉ (rest.foldl quoteArgStep (o, bs)).1 := by
    intro rest
    induction rest with
    | nil => exact fun o bs ho _ => ho
    | cons c rest ih =>
        intro o bs ho hrest
        obtain ⟨hc, hrest⟩ := not_or.mp (mt List.mem_cons.mpr hrest)
        rw [List.foldl_cons, quoteArgStep]
        split_ifs
        · exact ih o (bs + 1) ho hrest
        · exact ih _ 0 (by simp [slashes, ho, hc]) hrest
        · exact ih _ 0 (by simp [slashes, ho, hc]) hrest
  unfold quoteArg
  split_ifs
  · exact h
  · have ho := hfold a [34] 0 (by decide) h
    simp [slashes, ho]

theorem joinArgs_free {qs : List Wide} (h : ∀ q ∈ qs, 0 ∉ q) : 0 ∉ joinArgs qs := by
  induction qs with
  | nil => exact List.not_mem_nil
  | cons q rest ih =>
      obtain ⟨hq, hrest⟩ := List.forall_mem_cons.mp h
      cases rest with
      | nil => exact hq
      | cons q' rest => simpa [joinArgs, hq] using ih hrest

theorem received_free {cmd : Wide} (h : 0 ∉ cmd) : received cmd = splitArgs cmd := by
  rw [received, List.takeWhile_eq_self_iff.mpr]
  exact fun c hc => decide_eq_true fun he => h (he ▸ hc)

theorem foldl_quoted (quote : Bytes → Wide) (cmd : Wide) (args : List Bytes) :
    args.foldl (fun cmd a => cmd ++ 32 :: quote a) cmd = cmd ++ (args.map quote).flatMap (32 :: ·) := by
  induction args generalizing cmd with
  | nil => exact (List.append_nil cmd).symm
  | cons a args ih =>
      rw [List.foldl_cons, ih, List.append_assoc]
      rfl

variable {conv : Conversion} {exe : Bytes} {args : List Bytes}

theorem hostStart_cmd (logPath : Bytes) :
    (hostStart conv exe args logPath).cmd = joinArgs (((exe :: args).map (widen conv)).map quoteArg) := by
  rw [List.map_cons, List.map_cons, joinArgs_cons, List.map_map]
  exact foldl_quoted (fun a => quoteArg (widen conv a)) _ args

theorem widen_free (s : Bytes) (hnul : ∀ s, 0 ∉ s → 0 ∉ conv.multiByteToWideChar s) : 0 ∉ widen conv s := by
  refine hnul _ fun hin => ?_
  have hkept := List.mem_takeWhile_imp (show 0 ∈ s.takeWhile (· ≠ 0) from hin)
  exact absurd rfl (of_decide_eq_true hkept)

-- The process gets the program name and the arguments as they were given, also after
-- they are turned back where that loses nothing.
theorem host_start_args (hnul : ∀ s, 0 ∉ s → 0 ∉ conv.multiByteToWideChar s) (hfree : ∀ s ∈ exe :: args, 0 ∉ s)
    (logPath : Bytes) :
    received (hostStart conv exe args logPath).cmd = (exe :: args).map conv.multiByteToWideChar ∧
      ((∀ s ∈ exe :: args, conv.wideCharToMultiByte (conv.multiByteToWideChar s) = s) →
        (received (hostStart conv exe args logPath).cmd).map conv.wideCharToMultiByte = exe :: args) := by
  have hwide : (exe :: args).map (widen conv) = (exe :: args).map conv.multiByteToWideChar := by
    refine List.map_congr_left fun s hs => ?_
    rw [widen, cStr_of_notMem (hfree s hs)]
  have hcmd : 0 ∉ (hostStart conv exe args logPath).cmd := by
    rw [hostStart_cmd]
    refine joinArgs_free fun q hq => ?_
    obtain ⟨a, ha, rfl⟩ := List.mem_map.mp hq
    obtain ⟨s, -, rfl⟩ := List.mem_map.mp ha
    exact quoteArg_free (widen_free s hnul)
  have hargs : received (hostStart conv exe args logPath).cmd = (exe :: args).map conv.multiByteToWideChar := by
    rw [received_free hcmd, hostStart_cmd, splitArgs_join fun a _ => quoteArg_spells a, hwide]
  refine ⟨hargs, fun hback => ?_⟩
  rw [hargs, List.map_map]
  exact (List.map_congr_left hback).trans (List.map_id _)

-- The conversions on ASCII texts, which keep every character.
def asciiConversion : Conversion where
  multiByteToWideChar s := s.map fun b => UInt16.ofNat b.toNat
  wideCharToMultiByte w := w.map fun c => UInt8.ofNat c.toNat

theorem asciiConversion_nul (s : Bytes) (h : 0 ∉ s) : 0 ∉ asciiConversion.multiByteToWideChar s := by
  intro hin
  obtain ⟨b, hb, hzero⟩ := List.mem_map.mp hin
  have hnat := congrArg UInt16.toNat hzero
  have hlt := b.toNat_lt
  rw [UInt16.toNat_ofNat', Nat.mod_eq_of_lt (by omega)] at hnat
  have hbyte : b.toNat = (0 : UInt8).toNat := hnat
  exact h (UInt8.toNat_inj.mp hbyte ▸ hb)

theorem asciiConversion_back (s : Bytes) :
    asciiConversion.wideCharToMultiByte (asciiConversion.multiByteToWideChar s) = s := by
  have hbyte : ∀ b : UInt8, UInt8.ofNat (UInt16.ofNat b.toNat).toNat = b := by
    intro b
    have hlt := b.toNat_lt
    rw [UInt16.toNat_ofNat', Nat.mod_eq_of_lt (by omega), UInt8.ofNat_toNat]
  exact (List.map_map ..).trans ((List.map_congr_left fun b _ => hbyte b).trans (List.map_id s))

theorem host_start_args_backslash :
    (∀ s, 0 ∉ s → 0 ∉ asciiConversion.multiByteToWideChar s) ∧ (∀ s ∈ [ascii "td.exe", ascii "a b\\"], 0 ∉ s) ∧
      (received (hostStart asciiConversion (ascii "td.exe") [ascii "a b\\"] []).cmd).map
        asciiConversion.wideCharToMultiByte =
        [ascii "td.exe", ascii "a b\\"] := by
  have hfree : ∀ s ∈ [ascii "td.exe", ascii "a b\\"], 0 ∉ s := by decide
  exact ⟨asciiConversion_nul, hfree, (host_start_args asciiConversion_nul hfree []).2 (by decide)⟩

end CommandLine

end TetherDesk.Client
