import ChipEight.Proofs.TerminalStream

/-!
# Terminals that run out of room

A writer with room for a limited number of bytes takes the beginning of the stream that a writer
with room for everything would have taken, and reports every picture whose end it could not take.
Whether a picture is written at once or in pieces makes no difference.

* `Writer.writeAll`, `Writer.writeAll_pair`: bytes written in pieces;
* `Writer.size_stream`: how much room pictures take;
* `Writer.limited`: a writer whose room is limited, at some point of a stream;
* `Writer.presentEach`: pictures for a writer that may refuse to be flushed after some of them;
* `Writer.accepted_presentEach`, `Writer.getElem?_logs_presentEach`: what a writer with limited room
  takes, and what it reports.
-/

namespace ChipEight.Writer

variable {bs : ByteArray}

/-! ### Pieces -/

/-- Write pieces one after another, up to the first that does not fit. -/
def writeAll (w : Writer) : List ByteArray → Writer × Bool
  | [] => (w, true)
  | bs :: rest =>
      match w.write bs with
      | (w, true) => writeAll w rest
      | (w, false) => (w, false)

theorem extract_of_size_le {n : ℕ} (h : bs.size ≤ n) : bs.extract 0 n = bs := by
  rw [← Nat.max_eq_left h]
  exact ByteArray.extract_zero_max_size

/-- A write puts in what fits. -/
theorem write_of_room (accepted : ByteArray) (R : ℕ) (b : Bool) (bs : ByteArray) :
    (⟨accepted, some R, b⟩ : Writer).write bs =
      (⟨accepted ++ bs.extract 0 (R - accepted.size), some R, b⟩,
        decide (bs.size ≤ R - accepted.size)) := rfl

theorem writeAll_singleton (w : Writer) (bs : ByteArray) : w.writeAll [bs] = w.write bs := by
  rw [writeAll]
  split
  · next h => exact h.symm
  · next h => exact h.symm

/-- Two pieces written one after the other are written as one. -/
theorem writeAll_pair (w : Writer) (bs cs : ByteArray) :
    w.writeAll [bs, cs] = w.write (bs ++ cs) := by
  obtain ⟨accepted, _ | R, b⟩ := w
  · show Writer.writeAll ⟨accepted ++ bs, none, b⟩ [cs] = _
    rw [writeAll_singleton]
    simp [write, ByteArray.append_assoc]
  · rw [write_of_room, ByteArray.extract_append, ByteArray.size_append, ← ByteArray.append_assoc,
      Nat.zero_sub]
    by_cases hfits : bs.size ≤ R - accepted.size
    · have hleft : R - (accepted ++ bs).size = R - accepted.size - bs.size := by
        rw [ByteArray.size_append]
        omega
      have hboth : cs.size ≤ R - accepted.size - bs.size ↔ bs.size + cs.size ≤ R - accepted.size :=
        by omega
      rw [writeAll, write_of_room, decide_eq_true hfits]
      show Writer.writeAll _ [cs] = _
      rw [extract_of_size_le hfits, writeAll_singleton, write_of_room, hleft,
        decide_eq_decide.2 hboth]
    · -- the second piece finds no room, in whatever way it is written
      have hnone : R - accepted.size - bs.size = 0 := by omega
      rw [writeAll, write_of_room, decide_eq_false hfits, decide_eq_false (by omega), hnone,
        ByteArray.extract_same, ByteArray.append_empty]

/-! ### Limited room -/

/-- The room that pictures take. -/
theorem size_stream (fs : List Frame) :
    (stream fs).size = (fs.map fun f => 2083 + 2 * f.litCount).sum := by
  induction fs with
  | nil => rfl
  | cons f fs ih =>
    have hsize : (homeSequence ++ f.text).toUTF8.size = 3 + f.text.utf8ByteSize :=
      String.utf8ByteSize_append
    rw [stream, ByteArray.size_append, hsize, f.utf8ByteSize_text, ih, List.map_cons, List.sum_cons]
    omega

/-- A writer that has taken the beginning of `s`, as far as there is room. -/
def limited (R : ℕ) (b : Bool) (s : ByteArray) : Writer := ⟨s.extract 0 R, some R, b⟩

theorem limited_empty (R : ℕ) : limited R false .empty = { room := some R } :=
  congrArg (Writer.mk · (some R) false) (extract_of_size_le R.zero_le)

theorem write_limited (R : ℕ) (b : Bool) (s : ByteArray) (h : 0 < bs.size) :
    (limited R b s).write bs = (limited R b (s ++ bs), decide (s.size + bs.size ≤ R)) := by
  have hleft : R - (s.extract 0 R).size = R - s.size := by
    rw [ByteArray.size_extract]
    omega
  have hfits : bs.size ≤ R - s.size ↔ s.size + bs.size ≤ R := by omega
  rw [limited, limited, write_of_room, hleft, ByteArray.extract_append, Nat.zero_sub,
    decide_eq_decide.2 hfits]

/-- What is reported after pictures that take so many bytes in all, the last of which the writer
refuses to flush or not. -/
def warnings (R bytes : ℕ) (refuses : Bool) : List LogRecord :=
  if R < bytes then [.renderFailed WriteFailure.closed.message]
  else if refuses then [.renderFailed WriteFailure.flushRefused.message] else []

/-- Write a picture where only the beginning of `s` found room. -/
theorem present_limited (R : ℕ) (b : Bool) (s : ByteArray) (f : Frame) :
    (limited R b s).present f =
      (limited R b (s ++ stream [f]),
        .rendering :: warnings R (s ++ stream [f]).size b) := by
  have hpos : 0 < (stream [f]).size := by
    rw [size_stream, List.map_singleton, List.sum_singleton]
    omega
  have hwrite : (limited R b s).write (homeSequence ++ f.text).toUTF8 =
      (limited R b (s ++ stream [f]), decide ((s ++ stream [f]).size ≤ R)) := by
    have h := write_limited R b s hpos
    rw [← ByteArray.size_append] at h
    rw [stream, stream, ByteArray.append_empty] at h ⊢
    exact h
  rw [present, writeFrame, hwrite, warnings]
  by_cases hfits : (s ++ stream [f]).size ≤ R
  · rw [decide_eq_true hfits, if_neg (Nat.not_lt.2 hfits)]
    cases b <;> rfl
  · rw [decide_eq_false hfits, if_pos (Nat.lt_of_not_le hfits)]
    rfl

/-! ### Pictures in a row -/

/-- Write pictures one after another to a writer that, as told with each picture, refuses to be
flushed after it or does not, and report what went wrong with each. -/
def presentEach (w : Writer) : List (Frame × Bool) → Writer × List (List LogRecord)
  | [] => (w, [])
  | (f, refuses) :: rest =>
      let (w, log) := Writer.present { w with refusesFlush := refuses } f
      let (w, logs) := presentEach w rest
      (w, log :: logs)

theorem refusesFlush_present (w : Writer) (f : Frame) :
    (w.present f).1.refusesFlush = w.refusesFlush := by
  obtain ⟨accepted, _ | R, b⟩ := w <;> rfl

/-- Pictures for a writer that refuses to be flushed always or never. -/
theorem presentEach_map_refusesFlush (w : Writer) (fs : List Frame) :
    w.presentEach (fs.map fun f => (f, w.refusesFlush)) = w.presentAll fs := by
  induction fs generalizing w with
  | nil => rfl
  | cons f fs ih =>
    have hrest := ih (w.present f).1
    rw [w.refusesFlush_present] at hrest
    rw [List.map_cons, presentEach, presentAll]
    simp only [hrest]

/-- What the writer has taken. -/
theorem accepted_presentEach (R : ℕ) (b : Bool) (s : ByteArray) (qs : List (Frame × Bool)) :
    ((limited R b s).presentEach qs).1.accepted =
      (s ++ stream (qs.map Prod.fst)).extract 0 R := by
  -- what has been written so far grows by a picture with each step, whether it fits or not
  induction qs generalizing s b with
  | nil => rw [List.map_nil, stream, ByteArray.append_empty]; rfl
  | cons q qs ih =>
    obtain ⟨f, refuses⟩ := q
    have hfirst := present_limited R refuses s f
    show (((limited R refuses s).present f).1.presentEach qs).1.accepted = _
    rw [hfirst, ih, List.map_cons, stream_cons f (qs.map _), ByteArray.append_assoc]

/-- What the writer has reported about each picture. -/
theorem getElem?_logs_presentEach (R : ℕ) (b : Bool) (s : ByteArray) (qs : List (Frame × Bool))
    (j : ℕ) :
    ((limited R b s).presentEach qs).2[j]? = qs[j]?.map fun q =>
      .rendering :: warnings R (s ++ stream ((qs.take (j + 1)).map Prod.fst)).size q.2 := by
  induction qs generalizing s b j with
  | nil => rfl
  | cons q qs ih =>
    obtain ⟨f, refuses⟩ := q
    have hfirst := present_limited R refuses s f
    show (((limited R refuses s).present f).2 ::
      (((limited R refuses s).present f).1.presentEach qs).2)[j]? = _
    rw [hfirst]
    cases j with
    | zero => rfl
    | succ j =>
      rw [List.getElem?_cons_succ, ih, List.getElem?_cons_succ]
      cases qs[j]? with
      | none => rfl
      | some q =>
        rw [Option.map_some, Option.map_some, List.take_succ_cons, List.map_cons,
          stream_cons f ((qs.take _).map _), ByteArray.append_assoc]

theorem length_logs_presentEach (w : Writer) (qs : List (Frame × Bool)) :
    (w.presentEach qs).2.length = qs.length := by
  induction qs generalizing w with
  | nil => rfl
  | cons q qs ih => exact congrArg (· + 1) (ih _)

theorem extract_min_size (R : ℕ) (s : ByteArray) :
    s.extract 0 (min R s.size) = s.extract 0 R := by
  rcases Nat.le_total R s.size with h | h
  · rw [Nat.min_eq_left h]
  · rw [Nat.min_eq_right h, ByteArray.extract_zero_size, extract_of_size_le h]

end ChipEight.Writer
