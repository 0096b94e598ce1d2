import Mathlib.Data.List.DropRight
import Mathlib.Data.Nat.Notation

/-!
# The string functions of the Rust standard library

A string is read as its list of characters. The functions follow the documented behaviour of
their namesakes in Rust's `str`: `trim` strips Unicode white space, `parseUnsigned` is `from_str`
of the unsigned integers (an optional `+`, then one or more ASCII digits, in range), `splitOnce`
and `stripPrefix` cut at the first separator and at a leading string, `splitn`, `lines` and
`splitWhitespace` cut a string into its parts, `rsplitOnce` and `rsplitn` do so from its end,
`toAsciiLowercase` changes ASCII letters only.

The round trip `parseUnsigned_toDigits` is what the readers of printed numbers rest on.
-/

namespace OCF.Text

/-- `char::is_whitespace`: the Unicode property `White_Space`. -/
def isWhiteSpace (c : Char) : Bool :=
  (0x9 ≤ c.toNat && c.toNat ≤ 0xD) || c.toNat == 0x20 || c.toNat == 0x85 || c.toNat == 0xA0 ||
    c.toNat == 0x1680 || (0x2000 ≤ c.toNat && c.toNat ≤ 0x200A) || c.toNat == 0x2028 ||
    c.toNat == 0x2029 || c.toNat == 0x202F || c.toNat == 0x205F || c.toNat == 0x3000

/-- `str::trim_start`. -/
def trimStart (s : List Char) : List Char := s.dropWhile isWhiteSpace

/-- `str::trim`. -/
def trim (s : List Char) : List Char := (s.dropWhile isWhiteSpace).rdropWhile isWhiteSpace

/-- `str::trim` of a string. -/
def trimmed (s : String) : String := String.ofList (trim s.toList)

/-- `str::split_once` at a character: what stands before and after its first occurrence. -/
def splitOnce (sep : Char) : List Char → Option (List Char × List Char)
  | [] => none
  | c :: s => if c = sep then some ([], s) else (splitOnce sep s).map fun p => (c :: p.1, p.2)

/-- `str::splitn` at a character: at most `n` parts, the last one uncut. -/
def splitn (sep : Char) : ℕ → List Char → List (List Char)
  | 0, _ => []
  | 1, s => [s]
  | n + 2, s =>
    match splitOnce sep s with
    | none => [s]
    | some (part, rest) => part :: splitn sep (n + 1) rest

/-- `str::rsplit_once` at a character: what stands before and after its last occurrence. -/
def rsplitOnce (sep : Char) (s : List Char) : Option (List Char × List Char) :=
  (splitOnce sep s.reverse).map fun p => (p.2.reverse, p.1.reverse)

/-- `str::rsplitn` at a character: at most `n` parts, cut from the end and the last part first. -/
def rsplitn (sep : Char) (n : ℕ) (s : List Char) : List (List Char) :=
  (splitn sep n s.reverse).map List.reverse

/-- A line without the carriage return before its line feed. -/
def stripCr (s : List Char) : List Char := if s.getLast? = some '\r' then s.dropLast else s

/-- `str::lines`: what stands between line feeds; nothing after the last one is no line. -/
def lines (s : List Char) : List (List Char) :=
  let parts := s.splitOn '\n'
  parts.dropLast.map stripCr ++ (parts.getLast?.toList.filter fun l => l ≠ [])

/-- `str::split_whitespace`. -/
def splitWhitespace (s : List Char) : List (List Char) :=
  (s.splitOnP isWhiteSpace).filter fun w => w ≠ []

/-- The digits of an unsigned number, after the sign: one or more, each an ASCII digit. -/
def parseDigits (s : List Char) : Option ℕ :=
  if s ≠ [] ∧ s.all Char.isDigit then some (Nat.ofDigitChars 10 s 0) else none

/-- `from_str` of the unsigned integers below `bound`. -/
def parseUnsigned (bound : ℕ) (s : List Char) : Option ℕ :=
  (parseDigits (if s.head? = some '+' then s.tail else s)).filter (· < bound)

/-- `str::to_ascii_lowercase`. -/
def toAsciiLowercase (s : String) : String := String.ofList (s.toList.map Char.toLower)

/-- `str::eq_ignore_ascii_case`. -/
def eqIgnoreAsciiCase (a b : String) : Bool := toAsciiLowercase a = toAsciiLowercase b

/-- `str::strip_prefix` of a character. -/
def stripChar (c : Char) : List Char → Option (List Char)
  | [] => none
  | c' :: s => if c' = c then some s else none

/-- `str::strip_prefix`. -/
def stripPrefix (p s : String) : Option String :=
  (p.toList.isPrefixOf? s.toList).map String.ofList

/-- `str::contains` of a string. -/
def occursIn (t : List Char) : List Char → Bool
  | [] => t.isPrefixOf []
  | c :: s => t.isPrefixOf (c :: s) || occursIn t s

/-- `str::replace` of a character. -/
def replaceChar (c : Char) (t s : List Char) : List Char :=
  s.flatMap fun x => if x = c then t else [x]

theorem parseDigits_toDigits (n : ℕ) : parseDigits (Nat.toDigits 10 n) = some n := by
  have hd : (Nat.toDigits 10 n).all Char.isDigit := by
    rw [List.all_eq_true]
    exact fun c hc => Nat.isDigit_of_mem_toDigits (by decide) (by decide) hc
  rw [parseDigits, if_pos ⟨Nat.toDigits_ne_nil, hd⟩, Nat.ofDigitChars_ten_toDigits]

/-- Printed numbers are distinct. -/
theorem toString_injective : Function.Injective (toString : ℕ → String) := by
  intro m n h
  have hdigits : Nat.toDigits 10 m = Nat.toDigits 10 n := by
    simpa [toString, Nat.repr] using congrArg String.toList h
  rw [← Option.some_inj, ← parseDigits_toDigits m, hdigits, parseDigits_toDigits]

theorem isDigit_head_toDigits {n : ℕ} {c : Char} (h : (Nat.toDigits 10 n).head? = some c) :
    c.isDigit :=
  Nat.isDigit_of_mem_toDigits (by decide) (by decide) (List.mem_of_mem_head? h)

/-- Cutting at a separator that does not occur before it. -/
theorem splitOnce_append {sep : Char} {s t : List Char} (h : sep ∉ s) :
    splitOnce sep (s ++ sep :: t) = some (s, t) := by
  induction s with
  | nil => simp [splitOnce]
  | cons c s ih =>
    have hc : c ≠ sep := fun e => h (by simp [e])
    have hs : sep ∉ s := fun hm => h (List.mem_cons_of_mem _ hm)
    rw [List.cons_append, splitOnce, if_neg hc, ih hs, Option.map_some]

theorem splitOnce_eq_none {sep : Char} {s : List Char} (h : sep ∉ s) : splitOnce sep s = none := by
  induction s with
  | nil => rfl
  | cons c s ih =>
    have hc : c ≠ sep := fun e => h (by simp [e])
    have hs : sep ∉ s := fun hm => h (List.mem_cons_of_mem _ hm)
    rw [splitOnce, if_neg hc, ih hs, Option.map_none]

theorem rsplitOnce_append {sep : Char} {s t : List Char} (h : sep ∉ t) :
    rsplitOnce sep (s ++ sep :: t) = some (s, t) := by
  have hrev : (s ++ sep :: t).reverse = t.reverse ++ sep :: s.reverse := by simp
  rw [rsplitOnce, hrev, splitOnce_append (by simpa using h), Option.map_some, List.reverse_reverse,
    List.reverse_reverse]

/-- The last two parts of a text, and what stands before them. -/
theorem rsplitn_three {sep : Char} {a b c : List Char} (hb : sep ∉ b) (hc : sep ∉ c) :
    rsplitn sep 3 (a ++ sep :: (b ++ sep :: c)) = [c, b, a] := by
  have hrev : (a ++ sep :: (b ++ sep :: c)).reverse =
      c.reverse ++ sep :: (b.reverse ++ sep :: a.reverse) := by simp
  rw [rsplitn, hrev, splitn, splitOnce_append (by simpa using hc)]
  simp only
  rw [splitn, splitOnce_append (by simpa using hb)]
  simp [splitn]

/-- No piece of a text that is cut at some characters has one of them. -/
theorem eq_false_of_mem_splitOnP {α : Type*} {p : α → Bool} {s w : List α} (h : w ∈ s.splitOnP p)
    {c : α} (hc : c ∈ w) : p c = false := by
  induction s generalizing w with
  | nil =>
    obtain rfl : w = [] := by simpa using h
    cases hc
  | cons a s ih =>
    rw [List.splitOnP_cons_eq_if_modifyHead] at h
    split_ifs at h with ha
    · rcases List.mem_cons.1 h with rfl | h
      · cases hc
      · exact ih h hc
    · obtain ⟨v, vs, hv⟩ := List.exists_cons_of_ne_nil (List.splitOnP_ne_nil p s)
      rw [hv, List.modifyHead_cons] at h
      rcases List.mem_cons.1 h with rfl | h
      · rcases List.mem_cons.1 hc with rfl | hc
        · simpa using ha
        · exact ih (hv ▸ List.mem_cons_self) hc
      · exact ih (hv ▸ List.mem_cons_of_mem _ h) hc

theorem not_mem_of_mem_splitOn {sep : Char} {s w : List Char} (h : w ∈ s.splitOn sep) : sep ∉ w := by
  intro hc
  rw [List.splitOn_eq_splitOnP] at h
  simpa using eq_false_of_mem_splitOnP h hc

/-- Lines that are ended by line feeds are cut where they end. -/
theorem lines_flatMap {ls : List (List Char)} (h : ∀ l ∈ ls, '\n' ∉ l ∧ l.getLast? ≠ some '\r') :
    lines (ls.flatMap fun l => l ++ ['\n']) = ls := by
  have hsplit : (ls.flatMap fun l => l ++ ['\n']).splitOn '\n' = ls ++ [[]] := by
    induction ls with
    | nil => rfl
    | cons l ls ih =>
      rw [List.flatMap_cons, List.append_assoc, List.singleton_append,
        List.splitOn_append_cons_self_of_not_mem (h l List.mem_cons_self).1,
        ih fun l' hl' => h l' (List.mem_cons_of_mem _ hl'), List.cons_append]
  have hcr : ls.map stripCr = ls := by
    calc ls.map stripCr = ls.map id := List.map_congr_left fun l hl => if_neg (h l hl).2
      _ = ls := List.map_id ls
  rw [lines, hsplit]
  simp [hcr]

theorem splitWhitespace_cons_of_isWhiteSpace {c : Char} (hc : isWhiteSpace c) (s : List Char) :
    splitWhitespace (c :: s) = splitWhitespace s := by
  rw [splitWhitespace, List.splitOnP_cons_eq_if_modifyHead, if_pos hc,
    List.filter_cons_of_neg (by simp), splitWhitespace]

/-- A property of all characters, checked one by one. -/
theorem forall_mem_of_all {p : Char → Prop} [DecidablePred p] {s : List Char}
    (h : (s.all fun c => decide (p c)) = true) : ∀ c ∈ s, p c := by
  simpa using h

/-- A word: a text that is not empty and has no white space. -/
def IsWord (w : List Char) : Prop := w ≠ [] ∧ ∀ c ∈ w, isWhiteSpace c = false

instance (w : List Char) : Decidable (IsWord w) :=
  decidable_of_iff (w ≠ [] ∧ (w.all fun c => !isWhiteSpace c) = true) (by simp [IsWord])

theorem IsWord.append {w s : List Char} (hw : IsWord w) (hs : ∀ c ∈ s, isWhiteSpace c = false) :
    IsWord (w ++ s) := by
  refine ⟨by simp [hw.1], fun c hc => ?_⟩
  rcases List.mem_append.1 hc with hc | hc
  · exact hw.2 c hc
  · exact hs c hc

theorem splitWhitespace_word {w : List Char} (hw : IsWord w) : splitWhitespace w = [w] := by
  rw [splitWhitespace, List.splitOnP_eq_singleton hw.2, List.filter_cons_of_pos (by simpa using hw.1)]
  rfl

theorem splitWhitespace_word_append {w : List Char} (hw : IsWord w) (s : List Char) :
    splitWhitespace (w ++ ' ' :: s) = w :: splitWhitespace s := by
  rw [splitWhitespace, List.splitOnP_append_cons_of_forall_mem hw.2 ' ' (by decide),
    List.filter_cons_of_pos (by simpa using hw.1), splitWhitespace]

/-- Words with one space between any two of them are the words of the text. -/
theorem splitWhitespace_intercalate {ws : List (List Char)} (h : ∀ w ∈ ws, IsWord w) :
    splitWhitespace ([' '].intercalate ws) = ws := by
  induction ws with
  | nil => rfl
  | cons w ws ih =>
    have hws := ih fun w' hw' => h w' (List.mem_cons_of_mem _ hw')
    cases ws with
    | nil => simpa using splitWhitespace_word (h w List.mem_cons_self)
    | cons w' ws =>
      rw [List.intercalate_cons_cons, List.append_assoc, List.singleton_append,
        splitWhitespace_word_append (h w List.mem_cons_self), hws]

theorem mem_intercalate_space {ws : List (List Char)} {c : Char} (hc : c ∈ [' '].intercalate ws) :
    c = ' ' ∨ ∃ w ∈ ws, c ∈ w := by
  induction ws with
  | nil => cases hc
  | cons w ws ih =>
    cases ws with
    | nil => exact .inr ⟨w, List.mem_cons_self, by simpa using hc⟩
    | cons w' ws =>
      rw [List.intercalate_cons_cons, List.append_assoc, List.singleton_append, List.mem_append,
        List.mem_cons] at hc
      rcases hc with hc | rfl | hc
      · exact .inr ⟨w, List.mem_cons_self, hc⟩
      · exact .inl rfl
      · rcases ih hc with rfl | ⟨v, hv, hcv⟩
        · exact .inl rfl
        · exact .inr ⟨v, List.mem_cons_of_mem _ hv, hcv⟩

theorem splitOnP_append_cons {α : Type*} {p : α → Bool} {c : α} (hc : p c) (s t : List α) :
    (s ++ c :: t).splitOnP p = s.splitOnP p ++ t.splitOnP p := by
  induction s with
  | nil =>
    rw [List.nil_append, List.splitOnP_cons_eq_if_modifyHead, if_pos hc, List.splitOnP_nil,
      List.singleton_append]
  | cons a s ih =>
    obtain ⟨v, vs, hv⟩ := List.exists_cons_of_ne_nil (List.splitOnP_ne_nil p s)
    rw [List.cons_append, List.splitOnP_cons_eq_if_modifyHead, List.splitOnP_cons_eq_if_modifyHead,
      ih, hv]
    split_ifs <;> simp

/-- White space separates the words before it from those after it. -/
theorem splitWhitespace_append_cons {c : Char} (hc : isWhiteSpace c) (s t : List Char) :
    splitWhitespace (s ++ c :: t) = splitWhitespace s ++ splitWhitespace t := by
  rw [splitWhitespace, splitOnP_append_cons hc, List.filter_append, splitWhitespace,
    splitWhitespace]

theorem splitWhitespace_eq_nil {s : List Char} (h : ∀ c ∈ s, isWhiteSpace c) :
    splitWhitespace s = [] := by
  induction s with
  | nil => rfl
  | cons c s ih =>
    rw [splitWhitespace_cons_of_isWhiteSpace (h c List.mem_cons_self),
      ih fun c' hc' => h c' (List.mem_cons_of_mem _ hc')]

theorem splitWhitespace_append_left {s t : List Char} (hs : ∀ c ∈ s, isWhiteSpace c) :
    splitWhitespace (s ++ t) = splitWhitespace t := by
  induction s with
  | nil => rfl
  | cons c s ih =>
    rw [List.cons_append, splitWhitespace_cons_of_isWhiteSpace (hs c List.mem_cons_self),
      ih fun c' hc' => hs c' (List.mem_cons_of_mem _ hc')]

theorem splitWhitespace_append_right {s t : List Char} (ht : ∀ c ∈ t, isWhiteSpace c) :
    splitWhitespace (s ++ t) = splitWhitespace s := by
  cases t with
  | nil => rw [List.append_nil]
  | cons c t =>
    rw [splitWhitespace_append_cons (ht c List.mem_cons_self),
      splitWhitespace_eq_nil fun c' hc' => ht c' (List.mem_cons_of_mem _ hc'), List.append_nil]

/-- Trimming changes no word. -/
theorem splitWhitespace_trim (s : List Char) : splitWhitespace (trim s) = splitWhitespace s := by
  have hlead : splitWhitespace (s.dropWhile isWhiteSpace) = splitWhitespace s := by
    conv_rhs => rw [← List.takeWhile_append_dropWhile (p := isWhiteSpace) (l := s)]
    rw [splitWhitespace_append_left fun c hc => List.mem_takeWhile_imp hc]
  have htrail : ∀ c ∈ (s.dropWhile isWhiteSpace).rtakeWhile isWhiteSpace, isWhiteSpace c :=
    fun c hc => List.mem_rtakeWhile_imp hc
  rw [← hlead, trim]
  conv_rhs =>
    rw [← List.rdropWhile_append_rtakeWhile (p := isWhiteSpace) (l := s.dropWhile isWhiteSpace)]
  rw [splitWhitespace_append_right htrail]

theorem occursIn_iff {t s : List Char} : occursIn t s ↔ t <:+: s := by
  induction s with
  | nil => rw [occursIn, List.isPrefixOf_iff_prefix, List.prefix_nil, List.infix_nil]
  | cons c s ih =>
    rw [occursIn, Bool.or_eq_true, List.isPrefixOf_iff_prefix, ih, List.infix_cons_iff]

/-- The pieces of a text that is cut stand in it, the first one at its beginning. -/
theorem isPrefix_splitOnP {p : Char → Bool} {s v : List Char} {vs : List (List Char)}
    (h : s.splitOnP p = v :: vs) : v <+: s ∧ ∀ w ∈ vs, w <:+: s := by
  induction s generalizing v vs with
  | nil =>
    obtain ⟨rfl, rfl⟩ : [] = v ∧ [] = vs := by simpa using h
    exact ⟨List.nil_prefix, fun w hw => absurd hw List.not_mem_nil⟩
  | cons c s ih =>
    obtain ⟨u, us, hu⟩ := List.exists_cons_of_ne_nil (List.splitOnP_ne_nil p s)
    obtain ⟨hfirst, hrest⟩ := ih hu
    rw [List.splitOnP_cons_eq_if_modifyHead, hu] at h
    split_ifs at h with hc
    · obtain ⟨rfl, rfl⟩ := List.cons.inj h
      refine ⟨List.nil_prefix, fun w hw => ?_⟩
      rcases List.mem_cons.1 hw with rfl | hw
      · exact hfirst.isInfix.trans (List.infix_cons (List.infix_refl s))
      · exact (hrest w hw).trans (List.infix_cons (List.infix_refl s))
    · obtain ⟨rfl, rfl⟩ := List.cons.inj h
      exact ⟨List.cons_prefix_cons.2 ⟨rfl, hfirst⟩,
        fun w hw => (hrest w hw).trans (List.infix_cons (List.infix_refl s))⟩

/-- A word of a text stands in it. -/
theorem isInfix_of_mem_splitWhitespace {s w : List Char} (h : w ∈ splitWhitespace s) :
    w <:+: s := by
  have hmem : w ∈ s.splitOnP isWhiteSpace := (List.mem_filter.1 h).1
  obtain ⟨v, vs, hv⟩ := List.exists_cons_of_ne_nil (List.splitOnP_ne_nil isWhiteSpace s)
  obtain ⟨hfirst, hrest⟩ := isPrefix_splitOnP hv
  rw [hv] at hmem
  rcases List.mem_cons.1 hmem with rfl | hmem
  · exact hfirst.isInfix
  · exact hrest w hmem

/-- A text begins with its first word, once it is trimmed. -/
theorem isPrefix_trim {s w : List Char} {ws : List (List Char)} (h : splitWhitespace s = w :: ws) :
    w <+: trim s := by
  rw [← splitWhitespace_trim] at h
  cases ht : trim s with
  | nil =>
    rw [ht] at h
    simp [splitWhitespace] at h
  | cons c t =>
    have hc : isWhiteSpace c = false := by
      obtain ⟨u, hu⟩ : trim s <+: s.dropWhile isWhiteSpace := List.rdropWhile_prefix _ _
      have hhead := List.head?_dropWhile_not isWhiteSpace s
      rw [← hu, ht, List.cons_append, List.head?_cons] at hhead
      exact hhead
    obtain ⟨v, vs, hv⟩ := List.exists_cons_of_ne_nil (List.splitOnP_ne_nil isWhiteSpace t)
    have hsplit : (c :: t).splitOnP isWhiteSpace = (c :: v) :: vs := by
      rw [List.splitOnP_cons_eq_if_modifyHead, if_neg (by simp [hc]), hv]
      rfl
    have hfirst := (isPrefix_splitOnP hsplit).1
    rw [ht, splitWhitespace, hsplit, List.filter_cons_of_pos (by simp)] at h
    rwa [← (List.cons.inj h).1]

theorem splitWhitespace_leftpad (n : ℕ) (s : List Char) :
    splitWhitespace (List.replicate n ' ' ++ s) = splitWhitespace s := by
  refine splitWhitespace_append_left fun c hc => ?_
  rw [List.eq_of_mem_replicate hc]
  decide

/-- A printed number is read back, when it is in range. -/
theorem parseUnsigned_toDigits {bound n : ℕ} (h : n < bound) :
    parseUnsigned bound (Nat.toDigits 10 n) = some n := by
  have hplus : (Nat.toDigits 10 n).head? ≠ some '+' := fun e => by
    simpa using isDigit_head_toDigits e
  simp [parseUnsigned, if_neg hplus, parseDigits_toDigits, h]

/-- What a text that reads as a number consists of. -/
theorem parseUnsigned_eq_some {bound v : ℕ} {s : List Char} (h : parseUnsigned bound s = some v) :
    v < bound ∧ s ≠ [] ∧ ∀ c ∈ s, c = '+' ∨ c.isDigit := by
  rw [parseUnsigned, Option.filter_eq_some_iff, parseDigits] at h
  obtain ⟨h, hv⟩ := h
  split_ifs at h with hplus hd hd
  · -- the digits after the sign
    obtain ⟨t, rfl⟩ : ∃ t, s = '+' :: t := by
      cases s with
      | nil => simp at hplus
      | cons c t => exact ⟨t, by simpa using hplus⟩
    refine ⟨by simpa using hv, by simp, fun c hc => ?_⟩
    rcases List.mem_cons.1 hc with rfl | hc
    · exact .inl rfl
    · exact .inr (List.all_eq_true.1 hd.2 c hc)
  · exact ⟨by simpa using hv, hd.1, fun c hc => .inr (List.all_eq_true.1 hd.2 c hc)⟩

theorem not_isWhiteSpace_of_isDigit {c : Char} (h : c.isDigit) : isWhiteSpace c = false := by
  simp only [Char.isDigit, Bool.and_eq_true, decide_eq_true_eq] at h
  have h0 : 48 ≤ c.toNat := h.1
  have h9 : c.toNat ≤ 57 := h.2
  simp only [isWhiteSpace]
  grind

/-- Trimming a string without white space at its ends changes nothing. -/
theorem trim_eq_self {s : List Char} (hh : ∀ c ∈ s.head?, isWhiteSpace c = false)
    (hl : ∀ c ∈ s.getLast?, isWhiteSpace c = false) : trim s = s := by
  have hdrop : s.dropWhile isWhiteSpace = s := by
    cases s with
    | nil => rfl
    | cons c s => rw [List.dropWhile_cons_of_neg (by simp [hh c rfl])]
  rw [trim, hdrop, List.rdropWhile_eq_self_iff]
  intro hne
  simp [hl _ (List.getLast?_eq_some_getLast hne)]

/-- Trimming at the end leaves a character that is no white space and all before it. -/
theorem rdropWhile_append_cons {c : Char} (hc : isWhiteSpace c = false) (s t : List Char) :
    (s ++ c :: t).rdropWhile isWhiteSpace = s ++ c :: t.rdropWhile isWhiteSpace := by
  induction t using List.reverseRecOn with
  | nil => rw [List.rdropWhile_concat_neg _ _ _ (by simp [hc]), List.rdropWhile_nil]
  | append_singleton t d ih =>
    rw [← List.cons_append, ← List.append_assoc, List.rdropWhile_concat, ih, List.rdropWhile_concat]
    split_ifs <;> simp

theorem trim_cons {c : Char} (hc : isWhiteSpace c = false) (s : List Char) :
    trim (c :: s) = (c :: s).rdropWhile isWhiteSpace := by
  rw [trim, List.dropWhile_cons_of_neg (by simp [hc])]

/-- The first part of a text that is cut at a character. -/
theorem exists_splitOn (sep : Char) (s : List Char) :
    ∃ rest, s.splitOn sep = (s.takeWhile fun c => c ≠ sep) :: rest := by
  have hne : ∀ l : List Char, sep ∉ l → ∀ c ∈ l, decide (c ≠ sep) := by
    intro l hl c hc
    rw [decide_eq_true_iff]
    rintro rfl
    exact hl hc
  by_cases h : sep ∈ s
  · obtain ⟨a, b, rfl, ha⟩ := List.eq_append_cons_of_mem h
    rw [List.splitOn_append_cons_self_of_not_mem ha, List.takeWhile_append_of_pos (hne a ha),
      List.takeWhile_cons_of_neg (by simp), List.append_nil]
    exact ⟨_, rfl⟩
  · rw [List.takeWhile_eq_self_iff.2 (hne s h)]
    exact ⟨[], List.splitOn_eq_singleton h⟩

theorem stripPrefix_eq_some {p s t : String} : stripPrefix p s = some t ↔ s = p ++ t := by
  rw [stripPrefix, Option.map_eq_some_iff]
  constructor
  · rintro ⟨l, hl, rfl⟩
    rw [List.isPrefixOf?_eq_some_iff_append_eq] at hl
    apply String.toList_injective
    rw [String.toList_append, String.toList_ofList, hl]
  · rintro rfl
    refine ⟨t.toList, ?_, String.ofList_toList⟩
    rw [List.isPrefixOf?_eq_some_iff_append_eq, String.toList_append]

@[simp] theorem stripPrefix_append (p t : String) : stripPrefix p (p ++ t) = some t :=
  stripPrefix_eq_some.2 rfl

/-! ## Letter case -/

theorem toNat_toLower (c : Char) : c.toLower.val.toNat =
    if 65 ≤ c.val.toNat ∧ c.val.toNat ≤ 90 then c.val.toNat + 32 else c.val.toNat := by
  unfold Char.toLower
  simp only [ge_iff_le, UInt32.le_iff_toNat_le]
  split_ifs with h h' h'
  · rw [UInt32.toNat_add]
    have h2 : c.val.toNat ≤ 90 := h'.2
    change (c.val.toNat + 32) % 2 ^ 32 = _
    omega
  · exact absurd h h'
  · exact absurd h' h
  · rfl

theorem toNat_toUpper (c : Char) : c.toUpper.val.toNat =
    if 97 ≤ c.val.toNat ∧ c.val.toNat ≤ 122 then c.val.toNat - 32 else c.val.toNat := by
  unfold Char.toUpper
  simp only [UInt32.le_iff_toNat_le]
  split_ifs with h h' h'
  · rw [UInt32.toNat_add]
    change (c.val.toNat + 4294967264) % 2 ^ 32 = _
    omega
  · exact absurd h h'
  · exact absurd h' h
  · rfl

/-- The upper case of a letter does not depend on its case. -/
theorem toUpper_toLower (c : Char) : c.toLower.toUpper = c.toUpper := by
  refine Char.ext (UInt32.toNat_inj.1 ?_)
  rw [toNat_toUpper, toNat_toUpper, toNat_toLower]
  split_ifs <;> omega

end OCF.Text
