import TetherDesk.Client.HostProcess

namespace TetherDesk.Client

open TetherDesk.Lib.CommandLine

def quoteStep (o : Wide) (c : UInt16) : Wide := (if c = 34 then o ++ [92] else o) ++ [c]

def quote (a : Wide) : Wide := if Bare a then a else a.foldl quoteStep [34] ++ [34]

def wideAscii (text : String) : Wide := (ascii text).map fun b => UInt16.ofNat b.toNat

-- The command line that service_install registers and starts.
def serviceInstall (conv : Conversion) (exe : Bytes) (hostArgs : List Bytes) (logPath : Bytes) : Wide :=
  hostArgs.foldl (fun cmd a => cmd ++ 32 :: quote (widen conv a))
    (quote (widen conv exe) ++ wideAscii " --host-service " ++ quote (widen conv logPath))

-- What main starts with, on the arguments behind the one that is checked.
inductive Entry
  | runHost (argv : List Bytes)
  | hostService (argv : List Bytes)
  | app

def mainEntry (argv : List Bytes) : Entry :=
  if argv.length > 1 ∧ argv[1]? = some (ascii "--run-host") then .runHost (argv.drop 1)
  else if argv.length > 1 ∧ argv[1]? = some (ascii "--host-service") then .hostService (argv.drop 1)
  else .app

-- What service_watchdog_main starts each time, exe being its own path; none is the
-- return value 2.
def serviceWatchdogMain (conv : Conversion) (exe : Bytes) (argv : List Bytes) : Option Launch :=
  if argv.length < 2 then none
  else some (hostStart conv exe (ascii "--run-host" :: argv.drop 2) (argv.getD 1 []))

-- What the service starts when its process has this command line.
def serviceStarts (conv : Conversion) (exe : Bytes) (cmd : Wide) : Option Launch :=
  match mainEntry ((received cmd).map conv.wideCharToMultiByte) with
  | .hostService argv => serviceWatchdogMain conv exe argv
  | _ => none

-- What the conversions do: no NUL appears, ASCII texts keep their characters, and what
-- has been turned into UTF-16 once comes back.
structure Conversion.Sound (conv : Conversion) : Prop where
  toWide_nul : ∀ s, 0 ∉ s → 0 ∉ conv.multiByteToWideChar s
  toUtf8_nul : ∀ s, 0 ∉ s → 0 ∉ conv.wideCharToMultiByte (conv.multiByteToWideChar s)
  ascii_back : ∀ text, (∀ b ∈ ascii text, b < 128) → conv.wideCharToMultiByte (wideAscii text) = ascii text
  wide_back : ∀ s, 0 ∉ s →
    conv.multiByteToWideChar (conv.wideCharToMultiByte (conv.multiByteToWideChar s)) = conv.multiByteToWideChar s

-- The service gets the arguments it was installed with, and starts the host as
-- HostProcess::start does with them.
def ServiceFaithful (conv : Conversion) (self exe : Bytes) (hostArgs : List Bytes) (logPath : Bytes) : Prop :=
  received (serviceInstall conv exe hostArgs logPath) =
      widen conv exe :: wideAscii "--host-service" :: widen conv logPath :: hostArgs.map (widen conv) ∧
    serviceStarts conv self (serviceInstall conv exe hostArgs logPath) =
      some (hostStart conv self (ascii "--run-host" :: hostArgs) logPath)

-- Quoting keeps an argument that needs no quotes, or has no backslash before a quote
-- and none at its end.
def Kept (a : Wide) : Prop := Bare a ∨ ¬ [92, 34] <:+: a ++ [34]

instance : DecidablePred Kept := fun _ => inferInstanceAs (Decidable (_ ∨ _))

-- What quote puts between the quotes.
def body (a : Wide) : Wide := a.flatMap fun c => if c = 34 then [92, 34] else [c]

section Quote

variable {a w : Wide} {n : Nat}

theorem quote_body (h : ¬ Bare a) : quote a = 34 :: (body a ++ [34]) := by
  have hfold : ∀ (rest o : Wide), rest.foldl quoteStep o = o ++ body rest := by
    intro rest
    induction rest with
    | nil => exact fun o => (List.append_nil o).symm
    | cons c rest ih =>
        intro o
        rw [List.foldl_cons, ih, quoteStep, body, body, List.flatMap_cons]
        by_cases hquote : c = 34
        · simp [hquote]
        · simp [hquote]
  rw [quote, if_neg h, hfold]
  rfl

theorem infix_quote : [92, 34] <:+: slashes n ++ 34 :: w ↔ 0 < n ∨ [92, 34] <:+: w := by
  induction n with
  | zero => simp [List.infix_cons_iff]
  | succ n ih =>
      have hcons : slashes (n + 1) ++ 34 :: w = 92 :: (slashes n ++ 34 :: w) := rfl
      rw [hcons, List.infix_cons_iff, ih]
      refine iff_of_true ?_ (.inl (Nat.succ_pos n))
      cases n with
      | zero => exact .inl ⟨w, rfl⟩
      | succ n => exact .inr (.inl (Nat.succ_pos n))

theorem infix_other {c : UInt16} (hslash : c ≠ 92) (hquote : c ≠ 34) :
    [92, 34] <:+: slashes n ++ c :: w ↔ [92, 34] <:+: w := by
  induction n with
  | zero => simp [List.infix_cons_iff, hslash.symm]
  | succ n ih =>
      have hcons : slashes (n + 1) ++ c :: w = 92 :: (slashes n ++ c :: w) := rfl
      have hprefix : ¬ [92, 34] <+: 92 :: (slashes n ++ c :: w) := by
        cases n with
        | zero => simp [hquote.symm]
        | succ n => simp [slashes, List.replicate_succ]
      rw [hcons, List.infix_cons_iff, ih, or_iff_right hprefix]

-- The text between the quotes, after n backslashes, is read as the argument.
theorem foldl_body {done : List Wide} {text : Wide} (a : Wide) (h : ¬ [92, 34] <:+: slashes n ++ (a ++ [34])) :
    (body a ++ [34]).foldl Scan.step (.within done text true n) =
      .within done (text ++ slashes n ++ a) false 0 := by
  induction a generalizing n text with
  | nil =>
      rw [List.nil_append, infix_quote, not_or] at h
      obtain rfl : n = 0 := by omega
      change word done text true (0 * 2) 34 = _
      rw [word_toggle]
      simp
  | cons c a ih =>
      rw [List.cons_append] at h
      rw [body, List.flatMap_cons, List.append_assoc, ← body]
      by_cases hquote : c = 34
      · subst hquote
        rw [infix_quote, not_or] at h
        obtain rfl : n = 0 := by omega
        have hrest := @ih 0 (text ++ [34]) h.2
        change (body a ++ [34]).foldl Scan.step (word done text true (0 * 2 + 1) 34) = _
        rw [word_literal, slashes_zero, List.append_nil, hrest]
        simp
      rw [if_neg hquote, List.singleton_append, List.foldl_cons, Scan.step]
      by_cases hslash : c = 92
      · subst hslash
        rw [← slashes_succ] at h
        rw [word_slash, ih h, List.append_assoc, slashes_succ, List.append_assoc]
      · rw [infix_other hslash hquote] at h
        rw [word_other hslash hquote (.inr rfl), ih (by rwa [slashes_zero, List.nil_append])]
        simp

theorem Kept.spells (h : Kept a) : Spells (quote a) a := by
  by_cases hbare : Bare a
  · rw [quote, if_pos hbare]
    exact hbare.spells
  · have hbody : ¬ [92, 34] <:+: slashes 0 ++ (a ++ [34]) := h.resolve_left hbare
    intro done
    refine ⟨a, 0, ?_, by simp⟩
    rw [quote_body hbare, List.foldl_cons]
    exact foldl_body a hbody

-- A quote that takes no backslash stands after one backslash at most; as many quotes are
-- read as the argument has only where the last one closes.
theorem body_runs (a : Wide) (n : Nat) (hnone : runs (· / 2) n (body a ++ [34]) = 0) :
    a.count 34 ≤ runs (· % 2) n (body a ++ [34]) ∧
      (runs (· % 2) n (body a ++ [34]) ≤ a.count 34 → ¬ [92, 34] <:+: slashes n ++ (a ++ [34])) := by
  induction a generalizing n with
  | nil =>
      rw [show body [] ++ [34] = [34] from rfl, runs_quote] at hnone
      rw [show body [] ++ [34] = [34] from rfl, runs_quote, List.nil_append, infix_quote]
      refine ⟨Nat.zero_le _, fun hle => ?_⟩
      rw [List.count_nil] at hle
      rintro (hpos | hin)
      · omega
      · simp at hin
  | cons c a ih =>
      rw [body, List.flatMap_cons, List.append_assoc, ← body] at hnone ⊢
      rw [List.cons_append]
      by_cases hquote : c = 34
      · subst hquote
        rw [if_pos rfl, show ([92, 34] : Wide) ++ (body a ++ [34]) = 92 :: 34 :: (body a ++ [34]) from rfl,
          runs_slash,
          runs_quote] at hnone ⊢
        obtain ⟨hle, hback⟩ := ih 0 (by omega)
        rw [List.count_cons_self, infix_quote]
        refine ⟨by omega, fun hfew => ?_⟩
        rintro (hpos | hin)
        · omega
        · exact hback (by omega) hin
      rw [if_neg hquote, List.singleton_append] at hnone ⊢
      rw [List.count_cons_of_ne hquote]
      by_cases hslash : c = 92
      · subst hslash
        rw [runs_slash] at hnone ⊢
        rw [← slashes_succ]
        exact ih (n + 1) hnone
      · rw [runs_other hslash hquote] at hnone ⊢
        rw [infix_other hslash hquote]
        exact ih 0 hnone

theorem Bare.quote_free (h : Bare a) : 34 ∉ a := fun hin => (h.2 34 hin).2.2 rfl

theorem quote_runs (hnone : runs (· / 2) 0 (quote a) = 0) :
    a.count 34 ≤ runs (· % 2) 0 (quote a) ∧ (runs (· % 2) 0 (quote a) ≤ a.count 34 → Kept a) := by
  by_cases hbare : Bare a
  · rw [List.count_eq_zero_of_not_mem hbare.quote_free]
    exact ⟨Nat.zero_le _, fun _ => .inl hbare⟩
  · rw [quote_body hbare, runs_quote, Nat.zero_div, Nat.zero_add] at hnone
    rw [quote_body hbare, runs_quote, Nat.zero_mod, Nat.zero_add]
    obtain ⟨hle, hback⟩ := body_runs a 0 hnone
    exact ⟨hle, fun hfew => .inr (hback hfew)⟩

theorem quote_length (a : Wide) : (quote a).length = a.length + (quote a).count 34 := by
  by_cases hbare : Bare a
  · rw [quote, if_pos hbare, List.count_eq_zero_of_not_mem hbare.quote_free, Nat.add_zero]
  · have hbody : ∀ a : Wide, (body a).length = a.length + (body a).count 34 := by
      intro a
      induction a with
      | nil => rfl
      | cons c a ih =>
          rw [body, List.flatMap_cons, ← body, List.length_append, List.count_append, ih, List.length_cons]
          split_ifs with hquote
          · simp
            omega
          · rw [List.count_singleton, List.length_singleton]
            simp [hquote]
            omega
    rw [quote_body hbare, List.length_cons, List.length_append, hbody, List.count_cons_self, List.count_append]
    simp
    omega

theorem quote_nul (h : 0 ∉ a) : 0 ∉ quote a := by
  by_cases hbare : Bare a
  · rwa [quote, if_pos hbare]
  · have hbody : 0 ∉ body a := by
      intro hin
      obtain ⟨c, hc, hzero⟩ := List.mem_flatMap.mp hin
      split_ifs at hzero
      · simp at hzero
      · exact h (List.mem_singleton.mp hzero ▸ hc)
    rw [quote_body hbare]
    simp [hbody]

end Quote

section Join

variable {args : List Wide}

theorem join_length (h : args ≠ []) : (joinArgs (args.map quote)).length + 1 =
    total args + (args.map fun a => (quote a).count 34).sum + args.length := by
  induction args with
  | nil => exact absurd rfl h
  | cons a rest ih =>
      cases rest with
      | nil =>
          have hlen := quote_length a
          simp only [joinArgs, total, List.map_cons, List.map_nil, List.sum_cons, List.sum_nil,
            List.length_cons, List.length_nil]
          omega
      | cons b rest =>
          have hlen := quote_length a
          have hrest := ih (List.cons_ne_nil b rest)
          have hstep : joinArgs ((a :: b :: rest).map quote) = quote a ++ 32 ::
              joinArgs ((b :: rest).map quote) := rfl
          have htotal : total (a :: b :: rest) = a.length + total (b :: rest) := rfl
          have hsum : ((a :: b :: rest).map fun a => (quote a).count 34).sum =
              (quote a).count 34 + ((b :: rest).map fun a => (quote a).count 34).sum := rfl
          rw [hstep, List.length_append, List.length_cons, htotal, hsum, @List.length_cons _ a (b :: rest)]
          omega

theorem join_count : (joinArgs (args.map quote)).count 34 = (args.map fun a => (quote a).count 34).sum := by
  induction args with
  | nil => rfl
  | cons a rest ih =>
      cases rest with
      | nil => exact (Nat.add_zero _).symm
      | cons b rest =>
          have hstep : joinArgs ((a :: b :: rest).map quote) = quote a ++ 32 ::
              joinArgs ((b :: rest).map quote) := rfl
          rw [hstep, List.count_append, List.count_cons_of_ne (by decide), ih]
          rfl

theorem quotes_runs (hnone : (args.map fun a => runs (· / 2) 0 (quote a)).sum = 0) :
    quotes args ≤ (args.map fun a => runs (· % 2) 0 (quote a)).sum ∧
      ((args.map fun a => runs (· % 2) 0 (quote a)).sum ≤ quotes args → ∀ a ∈ args, Kept a) := by
  induction args with
  | nil => exact ⟨Nat.le_refl _, fun _ => nofun⟩
  | cons a rest ih =>
      rw [List.map_cons, List.sum_cons] at hnone ⊢
      obtain ⟨hle, hback⟩ := quote_runs (show runs (· / 2) 0 (quote a) = 0 by omega)
      obtain ⟨hle', hback'⟩ := ih (by omega)
      rw [show quotes (a :: rest) = a.count 34 + quotes rest from rfl]
      refine ⟨by omega, fun hfew => List.forall_mem_cons.mpr ⟨hback (by omega), hback' (by omega)⟩⟩

-- The command line is split into the arguments exactly when each of them is kept.
theorem split_quoted : splitArgs (joinArgs (args.map quote)) = args ↔ ∀ a ∈ args, Kept a := by
  constructor
  · intro hsplit
    by_cases hnil : args = []
    · subst hnil
      exact nofun
    obtain ⟨hcost, hquotes⟩ := split_cost (joinArgs (args.map quote))
    have hlen := join_length hnil
    rw [hsplit, runs_join, List.map_map, join_count] at hcost
    rw [hsplit, runs_join, List.map_map] at hquotes
    change total args + (args.map fun a => runs (· / 2) 0 (quote a)).sum + _ + _ ≤ _ at hcost
    exact (quotes_runs (by omega)).2 (Nat.le_of_eq hquotes.symm)
  · exact fun h => splitArgs_join fun a ha => (h a ha).spells

end Join

section Service

variable {conv : Conversion} {self exe logPath : Bytes} {hostArgs : List Bytes}

def serviceArgs (conv : Conversion) (exe : Bytes) (hostArgs : List Bytes) (logPath : Bytes) : List Wide :=
  widen conv exe :: wideAscii "--host-service" :: widen conv logPath :: hostArgs.map (widen conv)

theorem serviceInstall_join : serviceInstall conv exe hostArgs logPath =
    joinArgs ((serviceArgs conv exe hostArgs logPath).map quote) := by
  have hbare : quote (wideAscii "--host-service") = wideAscii "--host-service" := by decide
  rw [serviceArgs, List.map_cons, joinArgs_cons, List.map_cons, List.map_cons, hbare, List.map_map,
    List.flatMap_cons,
    List.flatMap_cons, serviceInstall, foldl_quoted (fun a => quote (widen conv a))]
  have htext : wideAscii " --host-service " = 32 :: (wideAscii "--host-service" ++ [32]) := by decide
  rw [htext]
  simp
  rfl

theorem received_service (hconv : conv.Sound) : received (serviceInstall conv exe hostArgs logPath) =
    splitArgs (joinArgs ((serviceArgs conv exe hostArgs logPath).map quote)) := by
  rw [serviceInstall_join, received_free]
  refine joinArgs_free fun q hq => ?_
  obtain ⟨a, ha, rfl⟩ := List.mem_map.mp hq
  refine quote_nul ?_
  simp only [serviceArgs, List.mem_cons, List.mem_map] at ha
  rcases ha with rfl | rfl | rfl | ⟨s, -, rfl⟩
  · exact widen_free exe hconv.toWide_nul
  · decide
  · exact widen_free logPath hconv.toWide_nul
  · exact widen_free s hconv.toWide_nul

-- What comes back from UTF-16 starts the same process.
theorem widen_back (hconv : conv.Sound) {s : Bytes} (hs : 0 ∉ s) :
    widen conv (conv.wideCharToMultiByte (widen conv s)) = widen conv s := by
  rw [widen, widen, cStr_of_notMem hs, cStr_of_notMem (hconv.toUtf8_nul s hs), hconv.wide_back s hs]

theorem hostStart_back (hconv : conv.Sound) (hlog : 0 ∉ logPath) (hargs : ∀ s ∈ hostArgs, 0 ∉ s) :
    hostStart conv self (ascii "--run-host" :: (hostArgs.map (widen conv)).map conv.wideCharToMultiByte)
        (conv.wideCharToMultiByte (widen conv logPath)) =
      hostStart conv self (ascii "--run-host" :: hostArgs) logPath := by
  have hwide : ((hostArgs.map (widen conv)).map conv.wideCharToMultiByte).map (fun a => quoteArg (widen conv a)) =
      hostArgs.map fun a => quoteArg (widen conv a) := by
    rw [List.map_map, List.map_map]
    refine List.map_congr_left fun s hs => ?_
    exact congrArg quoteArg (widen_back hconv (hargs s hs))
  unfold hostStart
  rw [widen_back hconv hlog, foldl_quoted (fun a => quoteArg (widen conv a)),
    foldl_quoted (fun a => quoteArg (widen conv a)),
    List.map_cons, List.map_cons, hwide]

theorem serviceStarts_kept (hconv : conv.Sound) (hlog : 0 ∉ logPath) (hargs : ∀ s ∈ hostArgs, 0 ∉ s)
    (hreceived : received (serviceInstall conv exe hostArgs logPath) = serviceArgs conv exe hostArgs logPath) :
    serviceStarts conv self (serviceInstall conv exe hostArgs logPath) =
      some (hostStart conv self (ascii "--run-host" :: hostArgs) logPath) := by
  have hall : (ascii "--host-service").all (fun b => decide (b < 128)) = true := by decide
  have hoption := hconv.ascii_back "--host-service" (by simpa using hall)
  have hentry : mainEntry ((serviceArgs conv exe hostArgs logPath).map conv.wideCharToMultiByte) =
      .hostService (ascii "--host-service" :: conv.wideCharToMultiByte (widen conv logPath) ::
        (hostArgs.map (widen conv)).map conv.wideCharToMultiByte) := by
    rw [serviceArgs, List.map_cons, List.map_cons, List.map_cons, hoption, mainEntry]
    rw [if_neg (by simp [show ascii "--host-service" ≠ ascii "--run-host" by decide]), if_pos (by simp)]
    rfl
  rw [serviceStarts, hreceived, hentry]
  dsimp only
  rw [serviceWatchdogMain, if_neg (by simp)]
  exact congrArg some (hostStart_back hconv hlog hargs)

-- Exactly when the path, the log path and every argument are kept.
theorem service_faithful_iff (hconv : conv.Sound) (hfree : ∀ s ∈ exe :: logPath :: hostArgs, 0 ∉ s) (self : Bytes) :
    ServiceFaithful conv self exe hostArgs logPath ↔ ∀ s ∈ exe :: logPath :: hostArgs, Kept (widen conv s) := by
  have hsplit : received (serviceInstall conv exe hostArgs logPath) = serviceArgs conv exe hostArgs logPath ↔
      ∀ a ∈ serviceArgs conv exe hostArgs logPath, Kept a := by
    rw [received_service hconv, split_quoted]
  have hkept : (∀ a ∈ serviceArgs conv exe hostArgs logPath, Kept a) ↔
      ∀ s ∈ exe :: logPath :: hostArgs, Kept (widen conv s) := by
    have hoption : Kept (wideAscii "--host-service") := by decide
    simp [serviceArgs, hoption]
  obtain ⟨-, hlog, hargs⟩ : 0 ∉ exe ∧ 0 ∉ logPath ∧ ∀ s ∈ hostArgs, 0 ∉ s := by simpa using hfree
  rw [← hkept, ← hsplit]
  exact ⟨fun h => h.1, fun h => ⟨h, serviceStarts_kept hconv hlog hargs h⟩⟩

end Service

theorem asciiConversion_sound : asciiConversion.Sound where
  toWide_nul := asciiConversion_nul
  toUtf8_nul := by
    intro s hs
    rwa [asciiConversion_back]
  ascii_back := fun text _ => asciiConversion_back (ascii text)
  wide_back := fun s _ => congrArg asciiConversion.multiByteToWideChar (asciiConversion_back s)

theorem service_faithful_iff_quote :
    asciiConversion.Sound ∧ (∀ s ∈ [ascii "td.exe", ascii "my host.log", ascii "a \"b"], 0 ∉ s) ∧
      (ServiceFaithful asciiConversion (ascii "td.exe") (ascii "td.exe") [ascii "a \"b"] (ascii "my host.log") ↔
        ∀ s ∈ [ascii "td.exe", ascii "my host.log", ascii "a \"b"], Kept (widen asciiConversion s)) := by
  have hfree : ∀ s ∈ [ascii "td.exe", ascii "my host.log", ascii "a \"b"], 0 ∉ s := by decide
  exact ⟨asciiConversion_sound, hfree, service_faithful_iff asciiConversion_sound hfree (ascii "td.exe")⟩

-- The quote behind the last backslash of an argument takes the next argument in.
theorem service_faithful_backslash :
    asciiConversion.Sound ∧
      (∀ s ∈ [ascii "td.exe", ascii "host.log", ascii "--relay", ascii "a b\\", ascii "--view-only"], 0 ∉ s) ∧
      received (serviceInstall asciiConversion (ascii "td.exe") [ascii "--relay", ascii "a b\\",
        ascii "--view-only"]
        (ascii "host.log")) =
        [wideAscii "td.exe", wideAscii "--host-service", wideAscii "host.log", wideAscii "--relay",
          wideAscii "a b\" --view-only"] ∧
      ¬ ServiceFaithful asciiConversion (ascii "td.exe") (ascii "td.exe")
        [ascii "--relay", ascii "a b\\", ascii "--view-only"] (ascii "host.log") := by
  have hreceived : received (serviceInstall asciiConversion (ascii "td.exe")
      [ascii "--relay", ascii "a b\\", ascii "--view-only"] (ascii "host.log")) =
      [wideAscii "td.exe", wideAscii "--host-service", wideAscii "host.log", wideAscii "--relay",
        wideAscii "a b\" --view-only"] := by decide
  refine ⟨asciiConversion_sound, by decide, hreceived, fun h => ?_⟩
  have hsame := hreceived.symm.trans h.1
  exact absurd hsame (by decide)

end TetherDesk.Client
