import OCF.Foundations.Text

/-!
# The lines of a text that are not blank

Many readers trim the lines of a text and skip the blank ones. What is left (`textLines`) does not
depend on white space around the text (`textLines_trim`), and it is what the lines were that the text
was made of (`textLines_flatMap`). `apply_trim` is the rule for functions that white space at the ends
of a text does not count for.
-/

namespace OCF.Text

/-- The trimmed lines that are not blank. -/
def textLines (s : List Char) : List (List Char) :=
  ((s.splitOn '\n').map trim).filter fun l => l ≠ []

theorem trim_cons_of_isWhiteSpace {c : Char} (hc : isWhiteSpace c) (s : List Char) :
    trim (c :: s) = trim s := by
  rw [trim, List.dropWhile_cons_of_pos hc, trim]

theorem trim_concat_of_isWhiteSpace {c : Char} (hc : isWhiteSpace c) (s : List Char) :
    trim (s ++ [c]) = trim s := by
  induction s with
  | nil => exact trim_cons_of_isWhiteSpace hc []
  | cons a s ih =>
    cases ha : isWhiteSpace a with
    | true => rw [List.cons_append, trim_cons_of_isWhiteSpace ha, trim_cons_of_isWhiteSpace ha, ih]
    | false =>
      have ha' : ¬ isWhiteSpace a := by simp [ha]
      rw [trim, trim, List.cons_append, List.dropWhile_cons_of_neg ha',
        List.dropWhile_cons_of_neg ha', ← List.cons_append, List.rdropWhile_concat_pos _ _ _ hc]

/-- A function that white space does not count for, at either end. -/
theorem apply_trim {β : Type*} {f : List Char → β}
    (hcons : ∀ c s, isWhiteSpace c → f (c :: s) = f s)
    (hconcat : ∀ c s, isWhiteSpace c → f (s ++ [c]) = f s) (s : List Char) : f (trim s) = f s := by
  have hstart : f (s.dropWhile isWhiteSpace) = f s := by
    induction s with
    | nil => rfl
    | cons c s ih =>
      by_cases hc : isWhiteSpace c
      · rw [List.dropWhile_cons_of_pos hc, ih, hcons c s hc]
      · rw [List.dropWhile_cons_of_neg hc]
  rw [trim, ← hstart]
  generalize s.dropWhile isWhiteSpace = t
  induction t using List.reverseRecOn with
  | nil => rfl
  | append_singleton t c ih =>
    by_cases hc : isWhiteSpace c
    · rw [List.rdropWhile_concat_pos _ _ _ hc, ih, hconcat c t hc]
    · rw [List.rdropWhile_concat_neg _ _ _ hc]

theorem trim_trim (s : List Char) : trim (trim s) = trim s :=
  apply_trim (fun _ s hc => trim_cons_of_isWhiteSpace hc s)
    (fun _ s hc => trim_concat_of_isWhiteSpace hc s) s

theorem trim_stripCr (s : List Char) : trim (stripCr s) = trim s := by
  rw [stripCr]
  split_ifs with hcr
  · obtain ⟨t, rfl⟩ := List.getLast?_eq_some_iff.1 hcr
    rw [List.dropLast_concat, trim_concat_of_isWhiteSpace (by decide)]
  · rfl

/-- The lines of a text, once they are trimmed and the blank ones are left out. -/
theorem filter_map_trim_lines (s : List Char) :
    ((lines s).map trim).filter (fun l => l ≠ []) = textLines s := by
  obtain ⟨parts, last, hparts⟩ : ∃ parts last, s.splitOn '\n' = parts ++ [last] :=
    ⟨_, _, (List.dropLast_append_getLast (by simp [List.splitOn])).symm⟩
  have hcr : parts.map (trim ∘ stripCr) = parts.map trim :=
    List.map_congr_left fun l _ => trim_stripCr l
  rw [lines, textLines, hparts]
  by_cases hlast : last = []
  · simp [hlast, hcr, trim]
  · simp [hlast, hcr]

theorem textLines_cons {c : Char} (hc : isWhiteSpace c) (s : List Char) :
    textLines (c :: s) = textLines s := by
  obtain ⟨l, ls, hl⟩ := List.exists_cons_of_ne_nil (List.splitOnP_ne_nil (· == '\n') s)
  rw [textLines, textLines, List.splitOn_eq_splitOnP, List.splitOn_eq_splitOnP,
    List.splitOnP_cons_eq_if_modifyHead, hl]
  split_ifs
  · simp [trim]
  · rw [List.modifyHead_cons, List.map_cons, List.map_cons, trim_cons_of_isWhiteSpace hc]

/-- What is added to a text is added to its last piece. -/
theorem intercalate_concat_append (sep : List Char) (parts : List (List Char)) (last t : List Char) :
    sep.intercalate (parts ++ [last ++ t]) = sep.intercalate (parts ++ [last]) ++ t := by
  induction parts with
  | nil => simp
  | cons l parts ih =>
    rw [List.cons_append, List.cons_append, List.intercalate_cons_of_ne_nil (by simp),
      List.intercalate_cons_of_ne_nil (by simp), ih]
    simp only [List.append_assoc]

theorem textLines_concat {c : Char} (hc : isWhiteSpace c) (s : List Char) :
    textLines (s ++ [c]) = textLines s := by
  obtain ⟨parts, last, hparts⟩ : ∃ parts last, s.splitOn '\n' = parts ++ [last] :=
    ⟨_, _, (List.dropLast_append_getLast (by simp [List.splitOn])).symm⟩
  rw [textLines, textLines, hparts]
  by_cases hnl : c = '\n'
  · have hsplit : (s ++ [c]).splitOn '\n' = s.splitOn '\n' ++ [[]] := by
      rw [List.splitOn_eq_splitOnP, splitOnP_append_cons (by simp [hnl]), List.splitOn_eq_splitOnP]
      rfl
    have hblank : (([[]] : List (List Char)).map trim).filter (fun l => l ≠ []) = [] := rfl
    rw [hsplit, hparts, List.map_append, List.filter_append, hblank, List.append_nil]
  · -- the character ends the last line
    have hnone : ∀ l ∈ parts ++ [last ++ [c]], '\n' ∉ l := by
      intro l hl
      rcases List.mem_append.1 hl with hl | hl
      · exact not_mem_of_mem_splitOn (hparts ▸ List.mem_append_left _ hl)
      · obtain rfl := List.mem_singleton.1 hl
        have hlast : '\n' ∉ last :=
          not_mem_of_mem_splitOn (hparts ▸ List.mem_append_right _ (List.mem_singleton_self _))
        simp [hlast, Ne.symm hnl]
    have hjoin : s ++ [c] = ['\n'].intercalate (parts ++ [last ++ [c]]) := by
      rw [intercalate_concat_append, ← hparts, List.intercalate_splitOn]
    rw [hjoin, List.splitOn_intercalate _ hnone (by simp)]
    simp [trim_concat_of_isWhiteSpace hc]

/-- White space around a text does not count. -/
theorem textLines_trim (s : List Char) : textLines (trim s) = textLines s :=
  apply_trim (fun _ s hc => textLines_cons hc s) (fun _ s hc => textLines_concat hc s) s

/-- Lines that are ended by line feeds. -/
theorem textLines_flatMap {ls : List (List Char)} (h : ∀ l ∈ ls, '\n' ∉ l) :
    textLines (ls.flatMap fun l => l ++ ['\n']) = (ls.map trim).filter fun l => l ≠ [] := by
  have hsplit : (ls.flatMap fun l => l ++ ['\n']).splitOn '\n' = ls ++ [[]] := by
    induction ls with
    | nil => rfl
    | cons l ls ih =>
      rw [List.flatMap_cons, List.append_assoc, List.singleton_append,
        List.splitOn_append_cons_self_of_not_mem (h l List.mem_cons_self),
        ih fun l' hl' => h l' (List.mem_cons_of_mem _ hl'), List.cons_append]
  have hblank : (([[]] : List (List Char)).map trim).filter (fun l => l ≠ []) = [] := rfl
  rw [textLines, hsplit, List.map_append, List.filter_append, hblank, List.append_nil]

end OCF.Text
