import IotFirmware.Config.NvsConsole

/-! The console over whole byte streams: which lines were typed depends on the bytes
alone, and each of them is run as far as the buffer takes it, however the stream is
cut into polls. -/
namespace IotFirmware

/-- The characters between two line ends, and NVS's answer behind the second. -/
structure TypedLine where
  bytes : List UInt8
  nvsOk : Bool
  deriving DecidableEq, Repr

/-- The lines of a stream behind what was typed of the first one. Empty ones do not count. -/
def typedLines (seen : List UInt8) : List SerialByte → List TypedLine
  | [] => []
  | b :: stream =>
    if b.endsLine then
      if seen = [] then typedLines [] stream else ⟨seen, b.nvsOk⟩ :: typedLines [] stream
    else typedLines (seen ++ [b.byte]) stream

def TypedLine.run (nvs : Nvs) (typed : TypedLine) : HandledLine :=
  let (reply, after) := processLine nvs typed.nvsOk (typed.bytes.take lineMax)
  ⟨reply, nvs, after⟩

def runLines (nvs : Nvs) : List TypedLine → List HandledLine
  | [] => []
  | typed :: lines => typed.run nvs :: runLines (typed.run nvs).after lines

@[simp] theorem TypedLine.run_before (nvs : Nvs) (typed : TypedLine) : (typed.run nvs).before = nvs := rfl

theorem runLines_length (nvs : Nvs) (lines : List TypedLine) : (runLines nvs lines).length = lines.length := by
  induction lines generalizing nvs with
  | nil => rfl
  | cons typed lines ih => rw [runLines, List.length_cons, List.length_cons, ih]

/-- Each line was run on the namespace found before it. -/
theorem runLines_get {nvs : Nvs} {lines : List TypedLine} {i : Nat} {typed : TypedLine} {line : HandledLine}
    (htyped : lines[i]? = some typed) (hline : (runLines nvs lines)[i]? = some line) :
    line = typed.run line.before := by
  induction lines generalizing nvs i with
  | nil => simp at htyped
  | cons first lines ih =>
    cases i with
    | zero =>
      simp only [runLines, List.getElem?_cons_zero, Option.some.injEq] at htyped hline
      rw [← hline, htyped, TypedLine.run_before]
    | succ i =>
      simp only [runLines, List.getElem?_cons_succ] at htyped hline
      exact ih htyped hline

/-- Each line is run on what the one before it left, from the first namespace to the last. -/
def Threads (first : Nvs) : List HandledLine → (last : Nvs) → Prop
  | [], last => first = last
  | line :: lines, last => line.before = first ∧ Threads line.after lines last

theorem Threads.snoc {first last : Nvs} {lines : List HandledLine} {line : HandledLine}
    (h : Threads first lines last) (hline : line.before = last) : Threads first (lines ++ [line]) line.after := by
  induction lines generalizing first with
  | nil => exact ⟨hline.trans h.symm, rfl⟩
  | cons head lines ih => exact ⟨h.1, ih h.2⟩

namespace Console
variable {console : Console} {seen : List UInt8} {b : SerialByte}

/-- A line end behind no characters does nothing. -/
theorem read_end_empty (hline : console.line = []) (hend : b.endsLine) : console.read b = console := by
  simp [read, hend, hline]

/-- A line end runs what the buffer took of the line and empties it. -/
theorem read_end (hline : console.line = seen.take lineMax) (hseen : seen ≠ []) (hend : b.endsLine) :
    console.read b =
      { boot (TypedLine.run console.nvs ⟨seen, b.nvsOk⟩).after with
        handled := console.handled ++ [TypedLine.run console.nvs ⟨seen, b.nvsOk⟩] } := by
  have hpos : 0 < console.line.length := by
    rw [hline, List.length_take, lineMax]
    have := List.length_pos_of_ne_nil hseen
    omega
  rw [read, if_pos hend, if_pos hpos, submit, hline]
  rfl

/-- Any other byte leaves the buffer with as much as fits of what was typed. -/
theorem read_character (hline : console.line = seen.take lineMax) (hend : ¬b.endsLine) :
    (console.read b).line = (seen ++ [b.byte]).take lineMax ∧ (console.read b).nvs = console.nvs ∧
      (console.read b).handled = console.handled := by
  rw [read, if_neg hend]
  by_cases hroom : console.line.length < lineMax
  · rw [dif_pos hroom]
    refine ⟨?_, rfl, rfl⟩
    rw [hline, List.length_take] at hroom
    have hshort : seen.length < lineMax := by omega
    rw [List.take_of_length_le hshort.le] at hline
    rw [List.take_of_length_le (by simpa using hshort), ← hline]
  · rw [dif_neg hroom]
    refine ⟨?_, rfl, rfl⟩
    rw [hline, List.length_take] at hroom
    rw [List.take_append_of_le_length (by omega), hline]

/-- A stream has exactly the typed lines run, in their order. -/
theorem handled_foldl_read (hline : console.line = seen.take lineMax) (stream : List SerialByte) :
    (stream.foldl read console).handled = console.handled ++ runLines console.nvs (typedLines seen stream) := by
  induction stream generalizing console seen with
  | nil => simp [typedLines, runLines]
  | cons b stream ih =>
    rw [List.foldl_cons, typedLines]
    by_cases hend : b.endsLine
    · rw [if_pos hend]
      by_cases hseen : seen = []
      · rw [if_pos hseen, read_end_empty (by simp [hline, hseen]) hend]
        exact ih (by simp [hline, hseen])
      · rw [if_neg hseen, read_end hline hseen hend, @ih _ [] rfl, runLines, List.append_assoc]
        rfl
    · obtain ⟨hnext, hnvs, hhandled⟩ := read_character hline hend
      rw [if_neg hend, ih hnext, hnvs, hhandled]

private theorem threads_read {first : Nvs} (h : Threads first console.handled console.nvs) :
    Threads first (console.read b).handled (console.read b).nvs := by
  unfold read
  split_ifs
  · exact h.snoc rfl
  · exact h
  · exact h
  · exact h

/-- The namespace behind any polls is what the last line left, and each line was run on what
the one before it left. -/
theorem threads_polled (nvs : Nvs) (polls : List (List SerialByte)) :
    Threads nvs (polled nvs polls).handled (polled nvs polls).nvs := by
  have hstream (stream : List SerialByte) {console : Console} (h : Threads nvs console.handled console.nvs) :
      Threads nvs (stream.foldl read console).handled (stream.foldl read console).nvs := by
    induction stream generalizing console with
    | nil => exact h
    | cons b stream ih => exact ih (threads_read h)
  have hflat : polled nvs polls = polls.flatten.foldl read (boot nvs) := List.foldl_flatten.symm
  rw [hflat]
  exact hstream polls.flatten rfl

/-- How the stream is cut into polls makes no difference. -/
theorem handled_polled (nvs : Nvs) (polls : List (List SerialByte)) :
    (polled nvs polls).handled = runLines nvs (typedLines [] polls.flatten) := by
  have hflat : polled nvs polls = polls.flatten.foldl read (boot nvs) := List.foldl_flatten.symm
  rw [hflat, @handled_foldl_read _ [] rfl]
  rfl

end Console
end IotFirmware
