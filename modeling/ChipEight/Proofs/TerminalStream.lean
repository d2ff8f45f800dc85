import ChipEight.Proofs.Console
import ChipEight.Text.Split

/-!
# Pictures read back from a terminal

A picture can be read off its text: the character in column `x` of line `y` tells whether the pixel
there is lit.  A stream of pictures can be read off what a terminal display has written: no picture
has an escape character in its text, so that splitting at the sequence that moves the cursor home
finds each text as a whole.

* `Frame.ofText`, `Frame.ofText_text`: the picture that a text shows;
* `Frame.utf8ByteSize_text`: the length of a text in bytes;
* `Writer.presentAll`: one picture after another;
* `Writer.read?`, `Writer.read?_stream`: the pictures in a stream of bytes;
* `stream_determines_frames`: the main result.
-/

namespace ChipEight

/-- In blocks of `k` entries, entry `x` of block `y` is at `k * y + x`. -/
theorem getElem?_flatMap_range {α : Type} {g : ℕ → List α} {k : ℕ} (hg : ∀ y, (g y).length = k)
    {n x y : ℕ} (hx : x < k) (hy : y < n) :
    ((List.range n).flatMap g)[k * y + x]? = (g y)[x]? := by
  have hlength : ∀ n, ((List.range n).flatMap g).length = k * n := by
    intro n
    simp [List.length_flatMap, hg, Nat.mul_comm]
  induction n with
  | zero => exact absurd hy y.not_lt_zero
  | succ n ih =>
    rw [List.range_succ, List.flatMap_append, List.flatMap_singleton]
    rcases Nat.lt_succ_iff_lt_or_eq.1 hy with hlt | rfl
    · -- the entry is in one of the blocks before the last
      have hin : k * y + x < k * n :=
        Nat.lt_of_lt_of_le (Nat.add_lt_add_left hx _) (Nat.mul_le_mul_left k hlt)
      rw [List.getElem?_append_left (hlength n ▸ hin), ih hlt]
    · rw [List.getElem?_append_right (hlength y ▸ Nat.le_add_right ..), hlength,
        Nat.add_sub_cancel_left]

/-- A vector of the values at the numbers below `n`, as a list. -/
theorem toList_ofFn_val {α : Type} (g : ℕ → α) (n : ℕ) :
    (Vector.ofFn fun i : Fin n => g i.val).toList = (List.range n).map g :=
  List.ext_getElem (by simp) (by simp)

namespace Frame

variable {f g : Frame} {x y : ℕ}

/-! ### Characters -/

/-- The characters of a picture line by line, each with the newline after it. -/
def lines (f : Frame) : Vector (Vector Char 64) 32 :=
  Vector.ofFn fun y => Vector.ofFn fun x => symbol (f.pixel x.val y.val)

theorem characters_eq_lines (f : Frame) :
    f.characters = f.lines.toList.flatMap fun l => l.toList ++ ['\n'] := by
  rw [lines, toList_ofFn_val (fun y => Vector.ofFn fun x : Fin 64 => symbol (f.pixel x.val y)),
    List.flatMap_map]
  refine List.flatMap_congr fun y _ => ?_
  rw [toList_ofFn_val fun x => symbol (f.pixel x y)]
  rfl

/-- The character of a pixel. -/
theorem getElem?_characters (f : Frame) (hx : x < width) (hy : y < height) :
    f.characters[65 * y + x]? = some (symbol (f.pixel x y)) := by
  have hblock : ∀ y, (f.line y ++ ['\n']).length = 65 := by
    intro y
    rw [List.length_append, length_line]
    rfl
  rw [characters, getElem?_flatMap_range hblock (Nat.lt_succ_of_lt hx) hy,
    List.getElem?_append_left (by rwa [length_line]), line, List.getElem?_map,
    List.getElem?_range hx]
  rfl

/-- The row whose pixels a predicate gives. -/
def rowOf (p : ℕ → Bool) : BitVec 64 :=
  (BitVec.ofBoolListBE ((List.range width).map p)).cast (by simp [width])

theorem getMsbD_rowOf (p : ℕ → Bool) (hx : x < width) : (rowOf p).getMsbD x = p x := by
  simp [rowOf, hx]

/-- The picture that a text shows. -/
def ofText (t : String) : Frame :=
  ofRows fun y => rowOf fun x => t.toList[65 * y + x]? == some '█'

/-- The picture that its text shows is the picture itself. -/
theorem ofText_text (f : Frame) : ofText f.text = f := by
  ext x hx y hy
  rw [pixel, ofText, row_ofRows, if_pos hy, getMsbD_rowOf _ hx, text, String.toList_ofList,
    f.getElem?_characters hx hy]
  cases f.pixel x y <;> rfl

theorem text_injective : Function.Injective text :=
  Function.LeftInverse.injective ofText_text

/-! ### Bytes -/

theorem utf8ByteSize_ofList (cs : List Char) :
    (String.ofList cs).utf8ByteSize = (cs.map Char.utf8Size).sum := by
  induction cs with
  | nil => rfl
  | cons c cs ih =>
    rw [String.ofList_cons, String.utf8ByteSize_append, String.utf8ByteSize_singleton, ih,
      List.map_cons, List.sum_cons]

/-- Every pixel takes a byte, and every lit one two more. -/
theorem sum_utf8Size_symbols (bs : List Bool) :
    ((bs.map symbol).map Char.utf8Size).sum = bs.length + 2 * bs.countP id := by
  -- a space is one byte long, a block three
  induction bs with
  | nil => rfl
  | cons b bs ih =>
    rw [List.map_cons, List.map_cons, List.sum_cons, ih, List.length_cons, List.countP_cons]
    cases b
    · show 1 + _ = _ + 2 * (_ + 0)
      omega
    · show 3 + _ = _ + 2 * (_ + 1)
      omega

/-- The length of some rows in bytes, newlines included. -/
theorem sum_utf8Size_rows (f : Frame) (ys : List ℕ) :
    ((ys.flatMap fun y => f.line y ++ ['\n']).map Char.utf8Size).sum =
      65 * ys.length +
        2 * (ys.flatMap fun y => (List.range width).map fun x => f.pixel x y).countP id := by
  induction ys with
  | nil => rfl
  | cons y ys ih =>
    have hline : ((f.line y).map Char.utf8Size).sum =
        64 + 2 * ((List.range width).map fun x => f.pixel x y).countP id := by
      have h := sum_utf8Size_symbols ((List.range width).map fun x => f.pixel x y)
      rw [List.map_map, List.length_map, List.length_range] at h
      exact h
    have hnewline : (['\n'].map Char.utf8Size).sum = 1 := rfl
    rw [List.flatMap_cons, List.flatMap_cons, List.map_append, List.map_append, List.sum_append,
      List.sum_append, hline, hnewline, ih, List.countP_append, List.length_cons]
    omega

/-- The length of a text in bytes. -/
theorem utf8ByteSize_text (f : Frame) : f.text.utf8ByteSize = 2080 + 2 * f.litCount := by
  rw [text, utf8ByteSize_ofList, characters, sum_utf8Size_rows, List.length_range]
  rfl

/-- The characters of a text. -/
theorem mem_text {c : Char} (hc : c ∈ f.text.toList) : c = '█' ∨ c = ' ' ∨ c = '\n' := by
  rw [text, String.toList_ofList, characters, List.mem_flatMap] at hc
  obtain ⟨y, -, hc⟩ := hc
  rcases List.mem_append.1 hc with hc | hc
  · obtain ⟨x, -, rfl⟩ := List.mem_map.1 hc
    cases f.pixel x y
    · exact .inr (.inl rfl)
    · exact .inl rfl
  · exact .inr (.inr (List.mem_singleton.1 hc))

/-- No text has an escape character in it. -/
theorem escape_not_mem_text (f : Frame) : '\x1b' ∉ f.text.toList := by
  intro h
  rcases mem_text h with h | h | h <;> revert h <;> decide

end Frame

/-! ### Streams of pictures -/

namespace Writer

/-- Write pictures one after another, each over the one before, and report what went wrong with
each. -/
def presentAll (w : Writer) : List Frame → Writer × List (List LogRecord)
  | [] => (w, [])
  | f :: fs =>
      let (w, log) := w.present f
      let (w, logs) := presentAll w fs
      (w, log :: logs)

/-- The first picture of a stream, and the others. -/
theorem stream_cons (f : Frame) (fs : List Frame) :
    stream (f :: fs) = stream [f] ++ stream fs := stream_append [f] fs

/-- A writer with room takes pictures as a whole. -/
theorem presentAll_of_room {w : Writer} (h : w.room = none) (fs : List Frame) :
    (w.presentAll fs).1 = { w with accepted := w.accepted ++ stream fs } := by
  induction fs generalizing w with
  | nil => rw [presentAll, stream, ByteArray.append_empty]
  | cons f fs ih =>
    have hroom : (w.present f).1.room = none := by rw [present_of_room h]; exact h
    show ((w.present f).1.presentAll fs).1 = _
    rw [ih hroom, present_of_room h, stream_cons f fs, ByteArray.append_assoc]

/-- The bytes of a stream are text: the texts of the pictures with the sequence that moves the
cursor home before each. -/
theorem stream_eq_marked (fs : List Frame) :
    stream fs = (Text.marked homeSequence (fs.map Frame.text)).toUTF8 := by
  induction fs with
  | nil => rfl
  | cons f fs ih =>
    rw [stream, ih, List.map_cons, Text.marked, ← String.append_assoc]
    exact String.toByteArray_append.symm

/-- The text of a stream, split at the sequence that moves the cursor home. -/
theorem split_marked_texts (fs : List Frame) :
    ((Text.marked homeSequence (fs.map Frame.text)).split homeSequence).toList.map
      String.Slice.copy = "" :: fs.map Frame.text := by
  have hsequence : homeSequence = String.singleton '\x1b' ++ "[H" := rfl
  refine Text.split_marked hsequence _ fun t ht => ?_
  obtain ⟨f, -, rfl⟩ := List.mem_map.1 ht
  exact f.escape_not_mem_text

/-- The pictures in a stream of bytes. -/
def read? (bs : ByteArray) : Option (List Frame) :=
  (String.fromUTF8? bs).map fun t =>
    ((t.split homeSequence).toList.drop 1).map fun piece => Frame.ofText piece.copy

/-- Bytes that encode a text decode to it. -/
theorem fromUTF8?_toUTF8 (t : String) : String.fromUTF8? t.toUTF8 = some t :=
  dif_pos t.isValidUTF8

/-- The pictures can be read back from their stream. -/
theorem read?_stream (fs : List Frame) : read? (stream fs) = some fs := by
  rw [read?, stream_eq_marked, fromUTF8?_toUTF8, Option.map_some]
  have hinverse : Frame.ofText ∘ Frame.text = id := funext Frame.ofText_text
  rw [← Function.comp_def, ← List.map_map, List.map_drop, split_marked_texts, List.drop_succ_cons,
    List.drop_zero, List.map_map, hinverse, List.map_id]

/-- Different lists of pictures have different streams. -/
theorem stream_injective : Function.Injective stream := fun fs gs h =>
  Option.some.inj ((read?_stream fs).symm.trans ((congrArg read? h).trans (read?_stream gs)))

theorem accepted_presentAll (fs : List Frame) :
    (({} : Writer).presentAll fs).1.accepted = stream fs := by
  rw [presentAll_of_room rfl, ByteArray.empty_append]

end Writer

/-- **The stream of a terminal display determines the pictures.**  The text of a picture is 32 lines
of 64 characters, each ended by a newline, and the character in column `x` of line `y` is a block if
the pixel there is lit and a space otherwise.  So a picture can be read off its text, and different
pictures have different texts; the text takes 2080 bytes and two more for every lit pixel.  What has
been written for a list of pictures by a writer that takes everything is text which, split at the
sequence that moves the cursor home, gives an empty text and then the texts of these pictures in
their order.  So the list can be read off the bytes, and different lists leave different bytes. -/
theorem stream_determines_frames :
    (∀ f : Frame, f.text.utf8ByteSize = 2080 + 2 * f.litCount ∧
      ∃ lines : Vector (Vector Char 64) 32,
        f.text.toList = lines.toList.flatMap (fun l => l.toList ++ ['\n']) ∧
          ∀ (x y : ℕ) (hx : x < 64) (hy : y < 32),
            lines[y][x] = if f.pixel x y then '█' else ' ') ∧
      Function.LeftInverse Frame.ofText Frame.text ∧ Function.Injective Frame.text ∧
      (∀ fs : List Frame, ∃ text : String,
        let written := (({} : Writer).presentAll fs).1.accepted
        String.fromUTF8? written = some text ∧
          (text.split Writer.homeSequence).toList.map String.Slice.copy =
            "" :: fs.map Frame.text ∧
          Writer.read? written = some fs) ∧
      Function.Injective fun fs : List Frame => (({} : Writer).presentAll fs).1.accepted := by
  refine ⟨fun f => ⟨f.utf8ByteSize_text, f.lines, ?_, fun x y hx hy => ?_⟩, Frame.ofText_text,
    Frame.text_injective, fun fs => ⟨_, ?_, Writer.split_marked_texts fs, ?_⟩, fun fs gs h => ?_⟩
  · rw [Frame.text, String.toList_ofList, Frame.characters_eq_lines]
  · simp only [Frame.lines, Vector.getElem_ofFn, Frame.symbol]
  · rw [Writer.accepted_presentAll, Writer.stream_eq_marked, Writer.fromUTF8?_toUTF8]
  · rw [Writer.accepted_presentAll, Writer.read?_stream]
  · refine Writer.stream_injective ?_
    rw [← Writer.accepted_presentAll, ← Writer.accepted_presentAll]
    exact h

/-- A picture whose last pixel alone is lit. -/
def Frame.lastPixel : Frame := ofRows fun y => if y = 31 then dot 63 else 0

/-- The last character of the last line is a block, and the text takes 2082 bytes.  The picture is
read back from a stream that shows it before the dark one, and the two in the other order, or one of
them alone, leave other bytes. -/
theorem stream_determines_frames_last_pixel :
    let f := Frame.lastPixel
    let written := fun fs => (({} : Writer).presentAll fs).1.accepted
    f.text.utf8ByteSize = 2082 ∧ f.text ≠ Frame.blank.text ∧
      (∃ lines : Vector (Vector Char 64) 32,
        f.text.toList = lines.toList.flatMap (fun l => l.toList ++ ['\n']) ∧
          lines[31][63] = '█' ∧ lines[31][62] = ' ') ∧
      Writer.read? (written [f, .blank]) = some [f, .blank] ∧
      written [f, .blank] ≠ written [.blank, f] ∧ written [f] ≠ written [f, .blank] := by
  intro f written
  obtain ⟨htext, -, hinjective, hstream, hstreams⟩ := stream_determines_frames
  obtain ⟨hsize, lines, hlines, hsymbol⟩ := htext f
  obtain ⟨text, -, -, hread⟩ := hstream [f, .blank]
  have hne : f ≠ Frame.blank := by decide +kernel
  exact ⟨hsize.trans (by decide +kernel), mt (@hinjective _ _) hne,
    ⟨lines, hlines, (hsymbol 63 31 (by decide) (by decide)).trans (by decide +kernel),
      (hsymbol 62 31 (by decide) (by decide)).trans (by decide +kernel)⟩, hread,
    fun h => hne (List.cons.inj (hstreams h)).1, fun h => by cases hstreams h⟩

end ChipEight
