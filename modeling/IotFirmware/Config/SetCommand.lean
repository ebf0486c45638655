import IotFirmware.Config.TypedLines

/-! What a typed `set` line asks for, what the console makes of it, and exactly which
of them are stored as typed or answered with a refusal. -/
namespace IotFirmware

/-- What a value is meant as: a text between two quotes, or decimal digits that fit
32 bits. Any other value is neither. -/
def typedAs (value : List UInt8) : Option NvsValue :=
  if 2 ≤ value.length ∧ value.head? = some 0x22 ∧ value.getLast? = some 0x22 then
    some (.str value.tail.dropLast)
  else if value.all (Strtof.isDigit 10) ∧ Strtof.digitsValue 10 value < 2 ^ 32 then
    some (.uint (UInt32.ofNat (Strtof.digitsValue 10 value)))
  else none

/-- A line that is `set`, blanks, a key, blanks and a value, with any blanks in front. -/
structure SetLine where
  lead : Nat
  before : Nat
  before_pos : 0 < before
  key : List UInt8
  key_ne : key ≠ []
  key_word : 0x20 ∉ key
  gap : Nat
  gap_pos : 0 < gap
  value : List UInt8
  value_ne : value ≠ []
  value_front : value.head? ≠ some 0x20

namespace SetLine
variable (l : SetLine)

def bytes : List UInt8 :=
  List.replicate l.lead 0x20 ++ ascii "set" ++ List.replicate l.before 0x20 ++ l.key ++
    List.replicate l.gap 0x20 ++ l.value

def front : List UInt8 :=
  List.replicate l.lead 0x20 ++ ascii "set" ++ List.replicate l.before 0x20 ++ l.key ++ [0x20]

def back : List UInt8 := List.replicate (l.gap - 1) 0x20 ++ l.value

/-- The line was reported as saved only if the value is under its key, and only if it
is a value the console can take as typed. -/
def Honest (line : HandledLine) : Prop :=
  line.reply.text = some "[CFG] saved, reboot to apply" →
    match typedAs l.value with
    | some value => line.after l.key = some value
    | none => l.value.head? ≠ some 0x22 ∧ l.bytes.length ≤ lineMax

/-- Nothing of the line is lost in the buffer. -/
def Whole : Prop := l.bytes.length ≤ lineMax ∧ 0 ∉ l.bytes

/-- What the buffer keeps of the line behind the key and its blank. -/
def kept : List UInt8 := (cString (l.bytes.take lineMax)).drop l.front.length

/-- The key is too long, no value is left, or only its first quote is. -/
def Refused : Prop :=
  nvsMaxKeyLen < l.key.length ∨ l.kept = [] ∨ l.kept.head? = some 0x22 ∧ 0x22 ∉ l.kept.tail

/-- The line is refused, or the value gets through: a text in a whole line behind a
single blank, a number in a whole line or zero, each where NVS takes it or has it
already, and of the other values those without a quote in a line that fits. -/
def Good (nvsOk : Bool) (nvs : Nvs) : Prop :=
  l.Refused ∨
    match typedAs l.value with
    | some (.str text) => if nvsOk then l.Whole ∧ l.gap = 1 else nvs l.key = some (.str text)
    | some (.uint n) => if nvsOk then l.Whole ∨ n = 0 else nvs l.key = some (.uint n)
    | none => l.value.head? ≠ some 0x22 ∧ l.bytes.length ≤ lineMax

end SetLine

private theorem CfgReply.text_eq_saved {reply : CfgReply} :
    reply.text = some "[CFG] saved, reboot to apply" ↔ reply = .saved := by
  cases reply <;> simp [CfgReply.text]

section Values
variable {value kept : List UInt8} {blanks : Nat}

private theorem typedAs_eq_str {text : List UInt8} (h : typedAs value = some (.str text)) :
    value = 0x22 :: text ++ [0x22] := by
  unfold typedAs at h
  split_ifs at h with hquoted
  · obtain ⟨hlength, hfirst, hlast⟩ := hquoted
    obtain ⟨rest, rfl⟩ := List.head?_eq_some_iff.mp hfirst
    have hne : rest ≠ [] := by
      rintro rfl
      simp at hlength
    have hend : rest.getLast? = some 0x22 := by
      rwa [List.getLast?_cons_of_ne_nil hne] at hlast
    simp only [List.tail_cons, Option.some.injEq, NvsValue.str.injEq] at h
    rw [← h, List.cons_append, List.dropLast_append_getLast? _ hend]
  · simp at h

private theorem typedAs_eq_uint {n : UInt32} (h : typedAs value = some (.uint n)) :
    (∀ b ∈ value, Strtof.isDigit 10 b = true) ∧ Strtof.digitsValue 10 value < 2 ^ 32 ∧
      n = UInt32.ofNat (Strtof.digitsValue 10 value) := by
  unfold typedAs at h
  split_ifs at h with _ hdigits
  · simp at h
  · simp only [Option.some.injEq, NvsValue.uint.injEq] at h
    exact ⟨List.all_eq_true.mp hdigits.1, hdigits.2, h.symm⟩

private theorem configValue_eq_none (hkept : kept ≠ []) :
    configValue kept = none ↔ kept.head? = some 0x22 ∧ 0x22 ∉ kept.tail := by
  unfold configValue
  by_cases hquote : kept.head? = some 0x22
  · obtain ⟨rest, rfl⟩ := List.head?_eq_some_iff.mp hquote
    obtain ⟨quote, hlast⟩ := Option.isSome_iff_exists.mp (strrchr_cons_isSome (c := 0x22) rest)
    rw [if_pos hquote, List.tail_cons, ← strrchr_cons_self, hlast]
    cases quote <;> simp
  · rw [if_neg hquote]
    simp [hquote]

/-- The kept part of blanks and a number is blanks and the first of its digits. -/
theorem prefix_blanks (h : kept <+: List.replicate blanks 0x20 ++ value) :
    ∃ (a : Nat) (digits : List UInt8), kept = List.replicate a 0x20 ++ digits ∧ digits <+: value ∧
      (digits = value → value ≠ [] → a = blanks) ∧ a ≤ blanks := by
  rcases List.prefix_or_prefix_of_prefix h (List.prefix_append _ _) with hshort | ⟨digits, rfl⟩
  · obtain ⟨hlength, heq⟩ := List.prefix_replicate_iff.mp hshort
    exact ⟨kept.length, [], by simpa using heq, List.nil_prefix, fun hnil hne => absurd hnil.symm hne, hlength⟩
  · exact ⟨blanks, digits, rfl, (List.prefix_append_right_inj _).mp h, fun _ _ => rfl, le_rfl⟩

/-- A text gets through as typed where all of it is kept and no blank is in front. -/
theorem configValue_eq_str {text : List UInt8} (hkept : kept ≠ [])
    (hfront : kept <+: List.replicate blanks 0x20 ++ (0x22 :: text ++ [0x22])) :
    configValue kept = some (.str text) ↔
      kept = List.replicate blanks 0x20 ++ (0x22 :: text ++ [0x22]) ∧ blanks = 0 := by
  constructor
  · intro h
    unfold configValue at h
    split_ifs at h with hquote
    · have hblanks : blanks = 0 := by
        by_contra hne
        obtain ⟨more, hmore⟩ := hfront
        obtain ⟨rest, rfl⟩ := List.head?_eq_some_iff.mp hquote
        rw [show blanks = blanks - 1 + 1 by omega, List.replicate_succ] at hmore
        simp at hmore
      refine ⟨hfront.eq_of_length_le ?_, hblanks⟩
      cases hlast : strrchr 0x22 kept with
      | none => simp [hlast] at h
      | some quote =>
        have hlt := strrchr_lt hlast
        rw [hlast] at h
        cases quote with
        | zero => simp at h
        | succ quote =>
          simp only [Option.some.injEq, NvsValue.str.injEq] at h
          have hlength := congrArg List.length h
          simp only [List.length_drop, List.length_take] at hlength
          simp only [hblanks, List.length_append, List.length_replicate, List.length_cons, List.length_nil]
          omega
    · simp at h
  · rintro ⟨rfl, rfl⟩
    have hlast := strrchr_concat (c := 0x22) (0x22 :: text)
    simp only [configValue, List.replicate_zero, List.nil_append, hlast, List.length_cons]
    simp

private theorem ofNat_inj {x y : Nat} (hx : x < 2 ^ 32) (hy : y < 2 ^ 32) (h : UInt32.ofNat x = UInt32.ofNat y) :
    x = y := by
  have hval := congrArg UInt32.toNat h
  rwa [UInt32.toNat_ofNat_of_lt' hx, UInt32.toNat_ofNat_of_lt' hy] at hval

/-- A number gets through as typed where all its digits are kept, or where it is zero. -/
theorem configValue_eq_uint {n : UInt32} (hvalue : value ≠ []) (hn : typedAs value = some (.uint n))
    (hkept : kept ≠ []) (hfront : kept <+: List.replicate blanks 0x20 ++ value) :
    configValue kept = some (.uint n) ↔ kept = List.replicate blanks 0x20 ++ value ∨ n = 0 := by
  obtain ⟨hdigits, hfits, rfl⟩ := typedAs_eq_uint hn
  obtain ⟨a, digits, rfl, ⟨lost, rfl⟩, hall, ha⟩ := prefix_blanks hfront
  have hplain : (List.replicate a 0x20 ++ digits).head? ≠ some 0x22 := by
    intro hquote
    have hmem := List.mem_of_head? hquote
    rw [List.mem_append, List.mem_replicate] at hmem
    rcases hmem with ⟨-, hblank⟩ | hdigit
    · exact absurd hblank (by decide)
    · exact absurd (hdigits _ (List.mem_append_left _ hdigit)) (by decide)
  have hle : Strtof.digitsValue 10 digits ≤ Strtof.digitsValue 10 (digits ++ lost) := by
    rw [Strtof.digitsValue_append]
    have := Nat.le_mul_of_pos_right (Strtof.digitsValue 10 digits) (Nat.pow_pos (n := lost.length) (by omega : 0 < 10))
    omega
  rw [configValue, if_neg hplain, strtoul_replicate,
    strtoul_digits (fun b hb => hdigits b (List.mem_append_left _ hb)) (by omega)]
  simp only [Option.some.injEq, NvsValue.uint.injEq]
  by_cases hlost : lost = []
  · subst hlost
    rw [List.append_nil] at hvalue hall ⊢
    simp [hall rfl hvalue]
  · have hcut : List.replicate a 0x20 ++ digits ≠ List.replicate blanks 0x20 ++ (digits ++ lost) := by
      intro heq
      have hlength := congrArg List.length heq
      have := List.length_pos_of_ne_nil hlost
      simp only [List.length_append, List.length_replicate] at hlength
      omega
    have hread : UInt32.ofNat (Strtof.digitsValue 10 digits) = UInt32.ofNat (Strtof.digitsValue 10 (digits ++ lost)) ↔
        Strtof.digitsValue 10 digits = Strtof.digitsValue 10 (digits ++ lost) :=
      ⟨fun h => ofNat_inj (by omega) hfits h, fun h => by rw [h]⟩
    have hzero : UInt32.ofNat (Strtof.digitsValue 10 (digits ++ lost)) = 0 ↔
        Strtof.digitsValue 10 (digits ++ lost) = 0 :=
      ⟨fun h => ofNat_inj hfits (by omega) h, fun h => by rw [h]; rfl⟩
    rw [hread, hzero, Strtof.digitsValue_prefix (by omega) hlost]
    simp [hcut]

end Values
namespace SetLine
variable (l : SetLine) (nvs : Nvs) (nvsOk : Bool)

theorem bytes_eq : l.bytes = l.front ++ l.back := by
  have hgap := l.gap_pos
  rw [bytes, front, back, show l.gap = l.gap - 1 + 1 by omega, List.replicate_succ]
  simp

/-- The line as its blanks split it. -/
theorem front_append (rest : List UInt8) : l.front ++ rest =
    List.replicate l.lead 0x20 ++ (ascii "set" ++ 0x20 ::
      (List.replicate (l.before - 1) 0x20 ++ (l.key ++ 0x20 :: rest))) := by
  have hbefore := l.before_pos
  rw [front, show l.before = l.before - 1 + 1 by omega, List.replicate_succ]
  simp

def shown : List UInt8 := cString (l.bytes.take lineMax)

private theorem shown_prefix : l.shown <+: l.front ++ l.back :=
  l.bytes_eq ▸ (List.takeWhile_prefix _).trans (List.take_prefix _ _)

private theorem shown_eq_iff : l.shown = l.bytes ↔ l.Whole := by
  constructor
  · intro h
    have hlength := (List.takeWhile_prefix (l := l.bytes.take lineMax) (p := (· ≠ 0))).length_le
    have hzero : 0 ∉ l.shown := fun hmem => by simpa using List.mem_takeWhile_imp hmem
    rw [← cString, ← shown, h, List.length_take] at hlength
    rw [h] at hzero
    exact ⟨by omega, hzero⟩
  · rintro ⟨hlength, hzero⟩
    rw [shown, List.take_of_length_le hlength, cString_eq_self hzero]

/-- The buffer keeps nothing behind the key and its blank, or all of these and more. -/
theorem shown_cases : l.kept = [] ∧ l.shown <+: l.front ∨
    l.kept ≠ [] ∧ l.shown = l.front ++ l.kept ∧ l.kept <+: l.back := by
  have hkept : l.kept = l.shown.drop l.front.length := rfl
  rcases List.prefix_or_prefix_of_prefix l.shown_prefix (List.prefix_append _ _) with hshort | ⟨rest, hrest⟩
  · exact .inl ⟨by rw [hkept, List.drop_eq_nil_iff]; exact hshort.length_le, hshort⟩
  · have hback := l.shown_prefix
    rw [← hrest, List.drop_left] at hkept
    rw [← hrest, List.prefix_append_right_inj, ← hkept] at hback
    by_cases hnil : l.kept = []
    · exact .inl ⟨hnil, by rw [← hrest, ← hkept, hnil, List.append_nil]⟩
    · exact .inr ⟨hnil, by rw [hkept, hrest], hback⟩

/-- Without any of the value the line is not reported as saved. -/
theorem processLine_short {line : List UInt8} (h : cString line <+: l.front) :
    (processLine nvs nvsOk line).1 ≠ .saved := by
  have hset : (0x20 : UInt8) ∉ ascii "set" := by decide
  have hfront := l.front_append []
  rw [List.append_nil] at hfront
  rw [hfront] at h
  unfold processLine
  cases hcmd : strtok [0x20] (cString line) with
  | none => simp
  | some token =>
    obtain ⟨cmd, rest⟩ := token
    obtain ⟨-, hrest⟩ := strtok_of_prefix hset (by decide) h hcmd
    dsimp only
    split_ifs
    · simp
    · simp
    · unfold setCommand
      cases hkey : strtok [0x20] rest with
      | none => simp
      | some token =>
        obtain ⟨key, rest⟩ := token
        obtain ⟨-, hnil⟩ := strtok_of_prefix l.key_word l.key_ne hrest hkey
        rw [List.prefix_nil.mp hnil]
        simp [strtok_nil]
    · simp

/-- With some of the value the line comes down to its key and that part of the value. -/
theorem processLine_kept {line : List UInt8} (hne : l.kept ≠ []) (h : cString line = l.front ++ l.kept) :
    processLine nvs nvsOk line =
      if nvsMaxKeyLen < l.key.length then (.keyTooLong, nvs)
      else
        (configValue l.kept).elim (.malformed, nvs) fun value => (.saved, nvs.written nvsOk (nvs.put l.key value)) := by
  have hcmd : strtok [0x20] (cString line) =
      some (ascii "set", List.replicate (l.before - 1) 0x20 ++ (l.key ++ 0x20 :: l.kept)) := by
    rw [h, front_append, strtok_replicate, strtok_word (by decide) (by decide)]
  have hkey : strtok [0x20] (List.replicate (l.before - 1) 0x20 ++ (l.key ++ 0x20 :: l.kept)) =
      some (l.key, l.kept) := by
    rw [strtok_replicate, strtok_word l.key_word l.key_ne]
  have hrest : strtok [] l.kept = some (l.kept, []) := by rw [strtok_nil, if_neg hne]
  simp only [processLine, hcmd, if_neg (by decide : ascii "set" ≠ ascii "reboot"),
    if_neg (by decide : ascii "set" ≠ ascii "clear"), if_true, setCommand, hkey, hrest]
  cases configValue l.kept <;> rfl

variable {l nvs nvsOk}

private theorem kept_eq_back (h : l.shown = l.front ++ l.kept) : l.kept = l.back ↔ l.Whole := by
  rw [← shown_eq_iff, h, bytes_eq, List.append_cancel_left_eq]

private theorem refused_iff (hne : l.kept ≠ []) :
    l.Refused ↔ nvsMaxKeyLen < l.key.length ∨ configValue l.kept = none := by
  rw [Refused, configValue_eq_none hne]
  simp [hne]

/-- A line that comes down to a stored value is honest exactly where it is good. -/
theorem honest_saved_iff {value : NvsValue} (hshown : l.shown = l.front ++ l.kept) (hne : l.kept ≠ [])
    (hback : l.kept <+: l.back) (hkey : ¬nvsMaxKeyLen < l.key.length) (hvalue : configValue l.kept = some value) :
    l.Honest ⟨.saved, nvs, nvs.written nvsOk (nvs.put l.key value)⟩ ↔ l.Good nvsOk nvs := by
  have hafter : nvs.written nvsOk (nvs.put l.key value) l.key = if nvsOk then some value else nvs l.key := by
    cases nvsOk <;> simp [Nvs.written]
  have hgap := l.gap_pos
  rw [Honest, Good, refused_iff hne, hvalue, CfgReply.text_eq_saved]
  simp only [hkey, reduceCtorEq, or_self, false_or, true_implies]
  cases htyped : typedAs l.value with
  | none => rfl
  | some meant =>
    dsimp only
    rw [hafter]
    cases nvsOk with
    | false => cases meant <;> rfl
    | true =>
      rw [if_pos rfl, ← hvalue]
      cases meant with
      | str text =>
        have hquoted := typedAs_eq_str htyped
        rw [back, hquoted] at hback
        have hsingle : l.gap - 1 = 0 ↔ l.gap = 1 := by omega
        rw [configValue_eq_str hne hback, ← hquoted, ← back, kept_eq_back hshown, hsingle]
        rfl
      | uint n =>
        rw [configValue_eq_uint l.value_ne htyped hne hback, ← back, kept_eq_back hshown]
        rfl

/-- One typed line: its answer is true exactly where the line is good. -/
theorem honest_run_iff {typed : TypedLine} (h : l.bytes = typed.bytes) :
    l.Honest (typed.run nvs) ↔ l.Good typed.nvsOk nvs := by
  have hline : cString (typed.bytes.take lineMax) = l.shown := by rw [← h, shown]
  rcases l.shown_cases with ⟨hnil, hshort⟩ | ⟨hne, hshown, hback⟩
  · have hunsaved := l.processLine_short nvs typed.nvsOk (hline ▸ hshort)
    exact ⟨fun _ => .inl (.inr (.inl hnil)), fun _ hsaved => absurd (CfgReply.text_eq_saved.mp hsaved) hunsaved⟩
  · have hrun := l.processLine_kept nvs typed.nvsOk hne (hline.trans hshown)
    rw [TypedLine.run, hrun]
    by_cases hkey : nvsMaxKeyLen < l.key.length
    · rw [if_pos hkey]
      exact ⟨fun _ => .inl (.inl hkey), fun _ hsaved => absurd (CfgReply.text_eq_saved.mp hsaved) (by simp)⟩
    · rw [if_neg hkey]
      cases hvalue : configValue l.kept with
      | none =>
        exact ⟨fun _ => .inl ((refused_iff hne).mpr (.inr hvalue)),
          fun _ hsaved => absurd (CfgReply.text_eq_saved.mp hsaved) (by simp)⟩
      | some value => exact honest_saved_iff hshown hne hback hkey hvalue

end SetLine

/-- Over every byte stream, in every split into polls, each typed line is run once in
its turn, on the namespace the one before it left and up to the one left in the end, and a
`set` among them is honest exactly where it is good. -/
theorem nvs_set_honest_iff (nvs : Nvs) (polls : List (List SerialByte)) :
    (Console.polled nvs polls).handled.length = (typedLines [] polls.flatten).length ∧
      Threads nvs (Console.polled nvs polls).handled (Console.polled nvs polls).nvs ∧
      ∀ (i : Nat) (typed : TypedLine) (line : HandledLine) (l : SetLine),
        (typedLines [] polls.flatten)[i]? = some typed → (Console.polled nvs polls).handled[i]? = some line →
          l.bytes = typed.bytes → (l.Honest line ↔ l.Good typed.nvsOk line.before) := by
  refine ⟨?_, Console.threads_polled nvs polls, ?_⟩
  · rw [Console.handled_polled]
    exact runLines_length _ _
  intro i typed line l htyped hline hbytes
  rw [Console.handled_polled] at hline
  rw [runLines_get htyped hline, TypedLine.run_before]
  exact SetLine.honest_run_iff hbytes

def typedText (text : String) : List SerialByte := (ascii text).map fun b => ⟨b, true⟩

def wifiSsidLine : SetLine where
  lead := 0
  before := 1
  before_pos := Nat.one_pos
  key := ascii "wifi_ssid"
  key_ne := by decide
  key_word := by decide
  gap := 1
  gap_pos := Nat.one_pos
  value := ascii "\"myssid\""
  value_ne := by decide
  value_front := by decide

/-- The documented example, typed over two polls, is stored as typed. -/
theorem nvs_set_honest_iff_myssid :
    let console := Console.polled Nvs.blank [typedText "set wifi_ssid \"my", typedText "ssid\"\r\n"]
    ∃ line, console.handled[0]? = some line ∧ wifiSsidLine.Honest line ∧ console.nvs = line.after ∧
      line.after (ascii "wifi_ssid") = some (.str (ascii "myssid")) := by
  have htyped : typedLines [] [typedText "set wifi_ssid \"my", typedText "ssid\"\r\n"].flatten =
      [⟨wifiSsidLine.bytes, true⟩] := by decide +kernel
  have hhandled : (Console.polled Nvs.blank [typedText "set wifi_ssid \"my", typedText "ssid\"\r\n"]).handled[0]? =
      some (TypedLine.run Nvs.blank ⟨wifiSsidLine.bytes, true⟩) := by
    rw [Console.handled_polled, htyped]
    rfl
  have hgood : wifiSsidLine.Good true Nvs.blank :=
    .inr ⟨⟨by decide, by decide⟩, rfl⟩
  obtain ⟨-, hthreads, hhonest⟩ :=
    nvs_set_honest_iff Nvs.blank [typedText "set wifi_ssid \"my", typedText "ssid\"\r\n"]
  rw [Console.handled_polled, htyped] at hthreads
  exact ⟨_, hhandled, (hhonest 0 _ _ wifiSsidLine (by rw [htyped]; rfl) hhandled rfl).mpr hgood, hthreads.2.symm,
    by decide +kernel⟩

def misplacedQuoteLine : SetLine where
  lead := 0
  before := 1
  before_pos := Nat.one_pos
  key := ascii "k"
  key_ne := by decide
  key_word := by decide
  gap := 1
  gap_pos := Nat.one_pos
  value := ascii "\"ab\"cd"
  value_ne := by decide
  value_front := by decide

/-- Behind a misplaced closing quote the rest of the value is lost, and the line is
reported as saved. -/
theorem nvs_set_misplaced_quote :
    ∃ line, (Console.polled Nvs.blank [typedText "set k \"ab\"cd\n"]).handled = [line] ∧
      typedLines [] (typedText "set k \"ab\"cd\n") = [⟨misplacedQuoteLine.bytes, true⟩] ∧
      line.reply.text = some "[CFG] saved, reboot to apply" ∧
      line.after (ascii "k") = some (.str (ascii "ab")) ∧ ¬misplacedQuoteLine.Honest line := by
  have htyped : typedLines [] (typedText "set k \"ab\"cd\n") = [⟨misplacedQuoteLine.bytes, true⟩] := by
    decide +kernel
  have hsaved : (TypedLine.run Nvs.blank ⟨misplacedQuoteLine.bytes, true⟩).reply.text =
      some "[CFG] saved, reboot to apply" := by decide +kernel
  refine ⟨TypedLine.run Nvs.blank ⟨misplacedQuoteLine.bytes, true⟩, ?_, htyped, hsaved, by decide +kernel, ?_⟩
  · rw [Console.handled_polled, List.flatten_singleton, htyped]
    rfl
  · intro h
    exact (h hsaved).1 rfl

end IotFirmware
