import ChipEight.CommandLine.Session
import Mathlib.Data.List.Basic

/-!
# What standard error receives

Standard error receives the lines that a logger makes of reports, the bell after the report that
announces it, and the line for a failure.  Reports and faults are worded on one line and without
control characters.  So if the logger keeps to that and labels no line as the program labels the one
for a failure, this line can be told from the others, and the bells can be counted.

* `Text.Printable`, `Fault.printable_message`, `LogRecord.printable_message`: wordings without
  control characters;
* `Logger.transcript`: the lines and bells for some reports;
* `Session.errorLines`: the lines labelled as the one for a failure;
* `Logger.Orderly`, with its transcripts: `Logger.Orderly.errorLines_transcript`,
  `Logger.Orderly.count_bell_transcript`;
* `Logger.Discreet`, `Logger.Discreet.transcript_eq`: a logger to which pictures do not matter.
-/

namespace ChipEight

/-! ### Wordings without control characters -/

namespace Text

/-- Numerals consist of digits. -/
theorem exists_digit_of_mem_toDigits {b n : ℕ} {c : Char} (hb : 1 < b) (hc : c ∈ Nat.toDigits b n) :
    ∃ d < b, c = Nat.digitChar d := by
  induction n using Nat.strongRecOn with
  | ind n ih =>
    rw [Nat.toDigits_eq_if hb] at hc
    by_cases hn : n < b
    · rw [if_pos hn] at hc
      exact ⟨n, hn, List.mem_singleton.1 hc⟩
    · rw [if_neg hn, List.mem_append, List.mem_singleton] at hc
      rcases hc with hc | rfl
      · exact ih (n / b) (Nat.div_lt_self (by omega) hb) hc
      · exact ⟨n % b, Nat.mod_lt n (by omega), rfl⟩

/-- A text without control characters. -/
def Printable (s : String) : Prop := ∀ c ∈ s.toList, ' ' ≤ c

instance (s : String) : Decidable (Printable s) :=
  decidable_of_iff (s.toList.all (' ' ≤ ·) = true) (by simp [Printable])

theorem printable_append_iff {s t : String} :
    Printable (s ++ t) ↔ Printable s ∧ Printable t := by
  simp only [Printable, String.toList_append, List.forall_mem_append]

theorem Printable.newline_notMem {s : String} (h : Printable s) : '\n' ∉ s.toList :=
  fun hmem => absurd (h _ hmem) (by decide)

theorem Printable.bell_notMem {s : String} (h : Printable s) : Bell.character ∉ s.toList :=
  fun hmem => absurd (h _ hmem) (by decide)

theorem printable_hex (width n : ℕ) : Printable (hex width n) := by
  intro c hc
  rw [hex, String.toList_ofList, List.leftpad, List.mem_append, List.mem_replicate,
    List.mem_map] at hc
  rcases hc with ⟨-, rfl⟩ | ⟨c, hc, rfl⟩
  · decide
  · have hdigits : ∀ d < 16, ' ' ≤ (Nat.digitChar d).toUpper := by decide
    obtain ⟨d, hd, rfl⟩ := exists_digit_of_mem_toDigits (by decide) hc
    exact hdigits d hd

theorem printable_address (n : ℕ) : Printable (address n) :=
  printable_append_iff.2 ⟨by decide +kernel, printable_hex 4 n⟩

theorem printable_toString (n : ℕ) : Printable (toString n) := by
  intro c hc
  rw [Nat.toString_eq_ofList_toDigits, String.toList_ofList] at hc
  obtain ⟨d, hd, rfl⟩ := exists_digit_of_mem_toDigits (by decide) hc
  have hdigits : ∀ d < 10, ' ' ≤ Nat.digitChar d := by decide
  exact hdigits d hd

theorem printable_intercalate {sep : String} (hsep : Printable sep) {ss : List String}
    (hss : ∀ s ∈ ss, Printable s) : Printable (sep.intercalate ss) := by
  induction ss with
  | nil => exact List.forall_mem_nil _
  | cons s ss ih =>
    obtain ⟨hs, hrest⟩ := List.forall_mem_cons.1 hss
    cases ss with
    | nil => exact hs
    | cons t ss =>
      rw [String.intercalate_cons_cons, printable_append_iff, printable_append_iff]
      exact ⟨⟨hs, hsep⟩, ih hrest⟩

end Text

open Text in
theorem Fault.printable_message (e : Fault) : Printable e.message := by
  cases e with
  | stackUnderflow => decide +kernel
  | outOfBounds a =>
    unfold message
    rw [printable_append_iff]
    exact ⟨by decide +kernel, printable_address a⟩
  | stackOverflow limit =>
    unfold message
    rw [printable_append_iff, printable_append_iff]
    exact ⟨⟨by decide +kernel, printable_toString limit⟩, by decide +kernel⟩
  | unrecognizedOpcode op =>
    unfold message
    rw [printable_append_iff]
    exact ⟨by decide +kernel, printable_address _⟩

open Text in
theorem Fault.printable_description (e : Fault) : Printable e.description := by
  cases e with
  | stackUnderflow => decide +kernel
  | outOfBounds n | stackOverflow n | unrecognizedOpcode op =>
    unfold description
    rw [printable_append_iff, printable_append_iff]
    exact ⟨⟨by decide +kernel, printable_toString _⟩, by decide +kernel⟩

open Text in
theorem Status.printable_description (st : Status) : Printable st.description := by
  cases st with
  | ready => decide +kernel
  | exited code =>
    unfold description
    rw [printable_append_iff, printable_append_iff]
    exact ⟨⟨by decide +kernel, printable_toString _⟩, by decide +kernel⟩
  | faulted e =>
    unfold description
    rw [printable_append_iff, printable_append_iff]
    exact ⟨⟨by decide +kernel, e.printable_description⟩, by decide +kernel⟩

namespace LogRecord

open Text

theorem printable_byteList (bs : List UInt8) : Printable (byteList bs) := by
  rw [byteList, printable_append_iff, printable_append_iff]
  refine ⟨⟨by decide +kernel, printable_intercalate (by decide +kernel) fun s hs => ?_⟩,
    by decide +kernel⟩
  obtain ⟨b, -, rfl⟩ := List.mem_map.1 hs
  exact printable_hex 2 b.toNat

/-- Every report is worded without control characters, unless it repeats what a display says. -/
theorem printable_message {r : LogRecord} (h : ∀ reason, r ≠ .renderFailed reason) :
    Printable r.message := by
  cases r with
  | executing opcode registers index pc =>
    unfold message
    simp only [printable_append_iff]
    exact ⟨⟨⟨⟨⟨⟨printable_hex _ _, by decide +kernel⟩, printable_byteList _⟩, by decide +kernel⟩,
      printable_hex _ _⟩, by decide +kernel⟩, printable_hex _ _⟩
  | showing n | exited n | programLoaded n | running n | stopped n =>
    unfold message
    rw [printable_append_iff, printable_append_iff]
    exact ⟨⟨by decide +kernel, printable_toString _⟩, by decide +kernel⟩
  | halting pc e =>
    unfold message
    simp only [printable_append_iff]
    exact ⟨⟨⟨by decide +kernel, printable_address _⟩, by decide +kernel⟩, e.printable_message⟩
  | keyIgnored code =>
    unfold message
    rw [printable_append_iff, printable_append_iff]
    exact ⟨⟨by decide +kernel, printable_hex _ _⟩, by decide +kernel⟩
  | renderFailed reason => exact absurd rfl (h reason)
  | finished st =>
    unfold message
    rw [printable_append_iff]
    exact ⟨by decide +kernel, st.printable_description⟩
  | machineReset | rendering | toneOn => decide +kernel

end LogRecord

/-! ### Transcripts -/

namespace Logger

/-- The lines and bells for some reports, of which there have been `n` before. -/
def transcript (l : Logger) (n : ℕ) : List LogRecord → String
  | [] => ""
  | r :: rs =>
      (match l.line? n r with
        | none => ""
        | some line => line ++ "\n") ++
      ((if r = .toneOn then Bell.character.toString else "") ++ l.transcript (n + 1) rs)

variable {l : Logger} {rs : List LogRecord}

theorem transcript_append (l : Logger) (n : ℕ) (rs ss : List LogRecord) :
    l.transcript n (rs ++ ss) = l.transcript n rs ++ l.transcript (n + rs.length) ss := by
  induction rs generalizing n with
  | nil => exact String.empty_append.symm
  | cons r rs ih =>
    rw [List.cons_append, transcript, transcript, ih, List.length_cons, Nat.add_right_comm,
      Nat.add_assoc n]
    simp only [String.append_assoc]

theorem text_append (l : Logger) (n : ℕ) (rs ss : List LogRecord) :
    l.text n (rs ++ ss) = l.text n rs ++ l.text (n + rs.length) ss := by
  induction rs generalizing n with
  | nil => exact String.empty_append.symm
  | cons r rs ih =>
    rw [List.cons_append, text, text, ih, List.length_cons, Nat.add_right_comm, Nat.add_assoc n]
    cases l.line? n r with
    | none => rfl
    | some line => exact (String.append_assoc ..).symm

/-- Where no tone begins, a transcript consists of lines. -/
theorem transcript_of_notMem (n : ℕ) (h : .toneOn ∉ rs) : l.transcript n rs = l.text n rs := by
  induction rs generalizing n with
  | nil => rfl
  | cons r rs ih =>
    rw [List.mem_cons, not_or] at h
    rw [transcript, text, if_neg (Ne.symm h.1), ih (n + 1) h.2, String.empty_append]
    cases l.line? n r with
    | none => exact String.empty_append
    | some line => rfl

/-- Where a tone begins at the end, the bell follows the lines. -/
theorem transcript_append_toneOn (n : ℕ) (h : .toneOn ∉ rs) :
    l.transcript n (rs ++ [.toneOn]) = l.text n (rs ++ [.toneOn]) ++ Bell.character.toString := by
  rw [transcript_append, transcript_of_notMem n h, text_append, String.append_assoc, transcript,
    transcript, if_pos rfl, text, text, String.append_empty]
  cases l.line? (n + rs.length) .toneOn with
  | none => rfl
  | some line => simp only [String.append_empty]

end Logger

/-! ### Lines for failures -/

namespace Session

/-- How the line for a failure is labelled. -/
def label : String := "chip8: "

/-- The lines of a text that are labelled as the one for a failure, bells left out. -/
def errorLines (s : String) : List String :=
  (((s.toList.filter (· ≠ Bell.character)).splitOn '\n').filter (label.toList.isPrefixOf ·)).map
    String.ofList

theorem errorLines_empty : errorLines "" = [] := by decide +kernel

/-- Bells in front of a text change none of its lines. -/
theorem errorLines_bell_append (s : String) :
    errorLines (Bell.character.toString ++ s) = errorLines s := by
  have hbell : Bell.character.toString.toList = [Bell.character] := rfl
  rw [errorLines, String.toList_append, hbell]
  rfl

/-- The first line is the text up to the first newline. -/
theorem errorLines_line_append {line : String} (hnewline : '\n' ∉ line.toList)
    (hbell : Bell.character ∉ line.toList) (s : String) :
    errorLines (line ++ "\n" ++ s) =
      (if label.toList.isPrefixOf line.toList then [line] else []) ++ errorLines s := by
  have hline : line.toList.filter (· ≠ Bell.character) = line.toList :=
    List.filter_eq_self.2 fun c hc => decide_eq_true fun heq => hbell (heq ▸ hc)
  have hend : "\n".toList.filter (· ≠ Bell.character) = ['\n'] := by decide +kernel
  have hfirst : ∀ c ∈ line.toList, (c == '\n') = false :=
    fun c hc => beq_false_of_ne fun heq => hnewline (heq ▸ hc)
  rw [errorLines, String.toList_append, String.toList_append, List.filter_append,
    List.filter_append, hline, hend, List.append_assoc, List.singleton_append, List.splitOn,
    List.splitOnP_append_cons_of_forall_mem hfirst _ (beq_self_eq_true _), List.filter_cons]
  split
  · rw [List.map_cons, String.ofList_toList]
    rfl
  · rfl

/-- The line for a failure that is worded without control characters. -/
theorem errorLines_errorLine {e : Failure} (h : Text.Printable e.message) :
    errorLines (errorLine e) = [label ++ e.message] := by
  have hline : Text.Printable (label ++ e.message) :=
    Text.printable_append_iff.2 ⟨by decide +kernel, h⟩
  have hlabel : label.toList.isPrefixOf (label ++ e.message).toList = true := by
    rw [String.toList_append, List.isPrefixOf_iff_prefix]
    exact List.prefix_append _ _
  have htext : errorLine e = label ++ e.message ++ "\n" ++ "" := String.append_empty.symm
  rw [htext, errorLines_line_append hline.newline_notMem hline.bell_notMem, if_pos hlabel,
    errorLines_empty, List.append_nil]

end Session

/-! ### Orderly loggers -/

namespace Logger

/-- A logger that makes one line of a wording on one line, adds no bell to it, and labels no line as
the one for a failure is. -/
structure Orderly (l : Logger) : Prop where
  newline : ∀ {n r line}, l.line? n r = some line → '\n' ∉ r.message.toList → '\n' ∉ line.toList
  bell : ∀ {n r line}, l.line? n r = some line → Bell.character ∉ r.message.toList →
    Bell.character ∉ line.toList
  label : ∀ {n r line}, l.line? n r = some line →
    Session.label.toList.isPrefixOf line.toList = false

/-- To show the level and the wording of reports is orderly. -/
theorem orderly_upTo (verbosity : Option Level) : (upTo verbosity).Orderly := by
  have hline : ∀ {n r line}, (upTo verbosity).line? n r = some line →
      line = r.level.name ++ " " ++ r.message := by
    intro n r line h
    obtain _ | v := verbosity
    · cases h
    · simp only [upTo, LogRecord.line?] at h
      split at h
      · exact (Option.some.inj h).symm
      · cases h
  have hname : ∀ v : Level, Text.Printable (v.name ++ " ") := fun v => by
    cases v <;> decide +kernel
  refine ⟨fun h hmessage => ?_, fun h hmessage => ?_, fun {n r line} h => ?_⟩
  · rw [hline h, String.toList_append, List.mem_append, not_or]
    exact ⟨(hname _).newline_notMem, hmessage⟩
  · rw [hline h, String.toList_append, List.mem_append, not_or]
    exact ⟨(hname _).bell_notMem, hmessage⟩
  · -- no level begins as the label does
    have hfirst : ∃ c cs, (r.level.name ++ " ").toList = c :: cs ∧ c ≠ 'c' := by
      cases r.level <;> exact ⟨_, _, rfl, by decide⟩
    obtain ⟨c, cs, hcs, hne⟩ := hfirst
    rw [hline h, String.toList_append, hcs]
    exact Bool.and_eq_false_iff.2 (.inl (beq_false_of_ne (Ne.symm hne)))

namespace Orderly

variable {l : Logger} {rs : List LogRecord}

/-- No line of a transcript is labelled as the one for a failure. -/
theorem errorLines_transcript (hl : l.Orderly) (n : ℕ)
    (hrs : ∀ r ∈ rs, Text.Printable r.message) (s : String) :
    Session.errorLines (l.transcript n rs ++ s) = Session.errorLines s := by
  induction rs generalizing n with
  | nil => rw [transcript, String.empty_append]
  | cons r rs ih =>
    obtain ⟨hr, hrest⟩ := List.forall_mem_cons.1 hrs
    have hbell : ∀ t,
        Session.errorLines ((if r = .toneOn then Bell.character.toString else "") ++ t) =
          Session.errorLines t := by
      intro t
      split
      · exact Session.errorLines_bell_append t
      · rw [String.empty_append]
    rw [transcript, String.append_assoc, String.append_assoc]
    cases hline : l.line? n r with
    | none => rw [String.empty_append, hbell, ih (n + 1) hrest]
    | some line =>
      rw [Session.errorLines_line_append (hl.newline hline hr.newline_notMem)
        (hl.bell hline hr.bell_notMem), if_neg (by rw [hl.label hline]; exact Bool.false_ne_true),
        List.nil_append, hbell, ih (n + 1) hrest]

/-- The bells of a transcript are those of the tones that begin. -/
theorem count_bell_transcript (hl : l.Orderly) (n : ℕ)
    (hrs : ∀ r ∈ rs, Text.Printable r.message) :
    (l.transcript n rs).toList.count Bell.character = rs.count .toneOn := by
  induction rs generalizing n with
  | nil => rfl
  | cons r rs ih =>
    obtain ⟨hr, hrest⟩ := List.forall_mem_cons.1 hrs
    have hlines : (match l.line? n r with
        | none => ""
        | some line => line ++ "\n").toList.count Bell.character = 0 := by
      cases hline : l.line? n r with
      | none => rfl
      | some line =>
        have hend : "\n".toList.count Bell.character = 0 := by decide +kernel
        rw [String.toList_append, List.count_append, hend,
          List.count_eq_zero_of_not_mem (hl.bell hline hr.bell_notMem)]
    rw [transcript, String.toList_append, String.toList_append, List.count_append,
      List.count_append, hlines, ih (n + 1) hrest, List.count_cons, Nat.zero_add, Nat.add_comm]
    by_cases htone : r = .toneOn
    · rw [if_pos htone, if_pos (beq_iff_eq.2 htone)]
      rfl
    · rw [if_neg htone, if_neg (mt beq_iff_eq.1 htone)]
      rfl

end Orderly

/-! ### Discreet loggers -/

end Logger

/-- Whether a report is about showing pictures. -/
def LogRecord.isPictorial : LogRecord → Bool
  | showing _ | rendering | renderFailed _ => true
  | _ => false

namespace Logger

/-- A logger that makes the same line of a report whenever it comes, and none of a report about
showing pictures. -/
structure Discreet (l : Logger) : Prop where
  steady : ∀ n n' r, l.line? n r = l.line? n' r
  silent : ∀ n r, r.isPictorial = true → l.line? n r = none

theorem Discreet.transcript_filter {l : Logger} (hl : l.Discreet) (n n' : ℕ) (rs : List LogRecord) :
    l.transcript n rs = l.transcript n' (rs.filter (!·.isPictorial)) := by
  induction rs generalizing n n' with
  | nil => rfl
  | cons r rs ih =>
    by_cases hr : r.isPictorial = true
    · have htone : r ≠ .toneOn := by
        rintro rfl
        cases hr
      rw [List.filter_cons_of_neg (by simp [hr]), transcript, hl.silent n r hr, if_neg htone,
        String.empty_append, String.empty_append, ih]
    · rw [List.filter_cons_of_pos (by simp [hr]), transcript, transcript, hl.steady n n' r,
        ih (n + 1) (n' + 1)]

/-- Transcripts do not differ if the reports differ in those about showing pictures. -/
theorem Discreet.transcript_eq {l : Logger} (hl : l.Discreet) {rs ss : List LogRecord}
    (h : rs.filter (!·.isPictorial) = ss.filter (!·.isPictorial)) (n : ℕ) :
    l.transcript n rs = l.transcript n ss := by
  rw [hl.transcript_filter n n rs, h, ← hl.transcript_filter n n ss]

/-- To show errors only is discreet. -/
theorem discreet_upTo_error : (upTo (some .error)).Discreet where
  steady _ _ _ := rfl
  silent n r hr := by
    cases r with
    | showing _ | rendering => rfl
    | renderFailed _ => rfl
    | _ => cases hr

end Logger

end ChipEight
