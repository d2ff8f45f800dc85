import Mathlib.Data.Nat.Notation

/-!
# Text split at a separator

Pieces of text, a separator before each, are found again by splitting at the separator, if its first
character occurs in none of them: the search for the separator then goes past every piece.

* `Text.marked`: pieces with a separator before each;
* `Text.split_skip`: the search goes past a piece;
* `Text.split_marked`: splitting gives the pieces back.
-/

namespace ChipEight.Text

open String.Slice.Pattern Model

/-- Pieces of text with a separator before each. -/
def marked (sep : String) : List String → String
  | [] => ""
  | t :: ts => sep ++ (t ++ marked sep ts)

variable {sep rest : String} {mark : Char} {s : String.Slice} {a t u v : String}
  {first pos : s.Pos}

/-- At a character that does not begin the separator, the search goes on. -/
theorem not_matchesAt_of_ne {c : Char} (hsep : sep = String.singleton mark ++ rest)
    (hc : c ≠ mark) (hpos : pos.Splits u (String.singleton c ++ v)) : ¬ MatchesAt sep pos := by
  intro hmatch
  obtain ⟨u', v', hpos'⟩ := ForwardStringSearcher.matchesAt_iff_splits.1 hmatch
  have heq := hpos.eq_right hpos'
  rw [hsep, String.append_assoc, String.singleton_append_inj] at heq
  exact hc heq.1

/-- The search goes past characters that do not begin the separator. -/
theorem split_skip [StrictPatternModel sep] (hsep : sep = String.singleton mark ++ rest)
    (cs : List Char) (hcs : mark ∉ cs) (hle : first ≤ pos)
    (hpos : pos.Splits u (String.ofList cs ++ v)) :
    ∃ stop : s.Pos, ∃ hle' : first ≤ stop, stop.Splits (u ++ String.ofList cs) v ∧
      Model.split sep first pos hle = Model.split sep first stop hle' := by
  induction cs generalizing pos u with
  | nil => exact ⟨pos, hle, by simpa using hpos, rfl⟩
  | cons c cs ih =>
    rw [List.mem_cons, not_or] at hcs
    rw [String.ofList_cons, String.append_assoc] at hpos
    have hend := hpos.ne_endPos_of_singleton
    obtain ⟨stop, hle', hstop, heq⟩ :=
      ih hcs.2 (Std.le_trans hle (Std.le_of_lt String.Slice.Pos.lt_next)) hpos.next
    refine ⟨stop, hle', ?_, ?_⟩
    · rwa [String.ofList_cons, ← String.append_assoc]
    · rw [split_eq_next_of_not_matchesAt hend
        (not_matchesAt_of_ne hsep (Ne.symm hcs.1) hpos), heq]

/-- The piece between two positions. -/
theorem copy_subslice {stop : s.Pos} (hle : first ≤ stop) (hfirst : first.Splits a (u ++ v))
    (hstop : stop.Splits (a ++ u) v) : (s.subslice first stop hle).toSlice.copy = u := by
  obtain ⟨_, hcopy⟩ :=
    String.Slice.copy_slice_eq_iff_splits.2 ⟨a, v, hfirst, hstop⟩
  rw [String.Slice.toSlice_subslice, hcopy]

/-- What the search makes of pieces from a position inside the first of them. -/
theorem map_copy_split [StrictPatternModel sep] (hsep : sep = String.singleton mark ++ rest)
    (ts : List String) (hts : ∀ t ∈ ts, mark ∉ t.toList) (ht : mark ∉ t.toList)
    (hle : first ≤ pos) (hfirst : first.Splits a (u ++ t ++ marked sep ts))
    (hpos : pos.Splits (a ++ u) (t ++ marked sep ts)) :
    (Model.split sep first pos hle).map (fun piece => piece.toSlice.copy) = (u ++ t) :: ts := by
  -- from the end of each piece on the search begins anew, with nothing read yet
  induction ts generalizing first pos a u t with
  | nil =>
    obtain ⟨stop, hle', hstop, heq⟩ := split_skip hsep t.toList ht hle (by simpa using hpos)
    rw [String.ofList_toList, String.append_assoc] at hstop
    obtain rfl : stop = s.endPos := hstop.eq_endPos_iff.2 rfl
    rw [heq, split_endPos, List.map_singleton, copy_subslice hle' hfirst hstop]
  | cons t' ts ih =>
    obtain ⟨stop, hle', hstop, heq⟩ := split_skip hsep t.toList ht hle (by simpa using hpos)
    rw [String.ofList_toList, String.append_assoc, marked] at hstop
    have hnext := hstop.splits_rotateRight
    have hmatch : IsLongestMatchAt sep stop hstop.rotateRight :=
      ForwardStringSearcher.isLongestMatchAt_iff_splits.2 ⟨_, _, hstop, hnext⟩
    have hrest := ih (u := "") (fun t h => hts t (List.mem_cons_of_mem _ h))
      (hts t' List.mem_cons_self) (Std.le_refl _) (by simpa using hnext) (by simpa using hnext)
    rw [heq, split_eq_of_isLongestMatchAt hmatch, List.map_cons, copy_subslice hle' hfirst hstop,
      hrest, String.empty_append]

/-- Splitting at the separator gives the pieces back, after the empty text before the first
separator. -/
theorem split_marked (hsep : sep = String.singleton mark ++ rest) (ts : List String)
    (hts : ∀ t ∈ ts, mark ∉ t.toList) :
    ((marked sep ts).split sep).toList.map String.Slice.copy = "" :: ts := by
  have hne : sep ≠ "" := by
    rw [hsep]
    simp
  have := ForwardStringSearcher.strictPatternModel hne
  have := ForwardStringSearcher.lawfulToForwardSearcherModel hne
  rw [String.split_eq_split_toSlice, String.Slice.toList_split_eq_splitToSubslice,
    toList_splitToSubslice_eq_modelSplit, List.map_map]
  exact map_copy_split hsep ts hts (by simp) _ (a := "") (u := "") (t := "") (by simp) (by simp)

end ChipEight.Text
