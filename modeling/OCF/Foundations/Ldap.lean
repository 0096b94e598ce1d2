import OCF.Foundations.Text
import Mathlib.Data.List.Infix
import Mathlib.Data.List.TakeWhile

/-!
# Names and entries as LDAP tools write them

The value of a distinguished name's component is written as RFC 4514 has it: some characters stand
for themselves, others after a backslash or as the hexadecimal digits of their bytes. An entry is
printed as LDIF (RFC 2849), the way the OpenLDAP tools do: an attribute begins a line, a line goes
up to column 76 and goes on after a line feed and a space, and a value that is not safe is printed
encoded after two colons.

A reader that takes a written value up to its first comma, and no further than some columns, gets
the value back just when the written text, cut there, is the value (`shown_take_eq_iff`).
-/

namespace OCF.Ldap

open OCF.Text

/-! ## Values as they are written in a name -/

/-- Characters that cannot stand for themselves. -/
def mustEscape (c : Char) : Bool := c ∈ ['"', '+', ',', ';', '<', '>', '\\', '\x00']

/-- Characters that a backslash may stand before. -/
def mayEscape (c : Char) : Bool := c ∈ ['"', '+', ',', ';', '<', '>', '\\', ' ', '#', '=']

/-- A character of a value as it is written. -/
inductive NameChar
  | plain (c : Char) (h : mustEscape c = false)
  | escaped (c : Char) (h : mayEscape c)
  | hex (c : Char)

/-- The character that is meant. -/
def NameChar.char : NameChar → Char
  | .plain c _ => c
  | .escaped c _ => c
  | .hex c => c

/-- The bytes of a character, each as two digits after a backslash. -/
def hexText (c : Char) : List Char :=
  (String.utf8EncodeChar c).flatMap fun b =>
    ['\\', (Nat.digitChar (b.toNat / 16)).toUpper, (Nat.digitChar (b.toNat % 16)).toUpper]

/-- What is written for it. -/
def NameChar.text : NameChar → List Char
  | .plain c _ => [c]
  | .escaped c _ => ['\\', c]
  | .hex c => hexText c

/-- A value as it is written, and what it stands for. -/
def nameText (s : List NameChar) : List Char := s.flatMap NameChar.text

/-- The name that is meant. -/
def nameOf (s : List NameChar) : List Char := s.map NameChar.char

/-- The character is written as it is. -/
def NameChar.isPlain : NameChar → Bool
  | .plain _ _ => true
  | _ => false

theorem nameText_append (s s' : List NameChar) : nameText (s ++ s') = nameText s ++ nameText s' :=
  List.flatMap_append

theorem nameText_eq_nameOf {s : List NameChar} (h : ∀ t ∈ s, t.isPlain) : nameText s = nameOf s := by
  induction s with
  | nil => rfl
  | cons t s ih =>
    have ht := h t List.mem_cons_self
    rw [nameText, List.flatMap_cons, nameOf, List.map_cons]
    cases t with
    | plain c hc => exact congrArg (c :: ·) (ih fun t' ht' => h t' (List.mem_cons_of_mem _ ht'))
    | escaped c hc => cases ht
    | hex c => cases ht

theorem exists_hexText (c : Char) : ∃ a b s, hexText c = '\\' :: a :: b :: s := by
  have hne : String.utf8EncodeChar c ≠ [] := by simp
  obtain ⟨b, bs, hbs⟩ := List.exists_cons_of_ne_nil hne
  exact ⟨_, _, _, by rw [hexText, hbs]; rfl⟩

/-- What does not stand for itself begins with a backslash and has another character. -/
theorem NameChar.exists_text {t : NameChar} (ht : t.isPlain = false) :
    ∃ c s, t.text = '\\' :: c :: s := by
  cases t with
  | plain c h => cases ht
  | escaped c h => exact ⟨c, [], rfl⟩
  | hex c =>
    obtain ⟨a, b, s, hs⟩ := exists_hexText c
    exact ⟨a, b :: s, hs⟩

theorem length_le_nameText (s : List NameChar) : s.length ≤ (nameText s).length := by
  induction s with
  | nil => simp
  | cons t s ih =>
    have ht : 1 ≤ t.text.length := by
      by_cases h : t.isPlain
      · cases t with
        | plain c hc => simp [NameChar.text]
        | escaped c hc => cases h
        | hex c => cases h
      · obtain ⟨c, s, hs⟩ := NameChar.exists_text (by simpa using h)
        simp [hs]
    rw [nameText, List.flatMap_cons, List.length_append, List.length_cons]
    exact Nat.add_comm _ 1 ▸ Nat.add_le_add ht ih

/-- After a character that does not stand for itself the text is ahead of the value. -/
theorem length_lt_nameText {t : NameChar} (ht : t.isPlain = false) (s : List NameChar) :
    (t :: s).length < (nameText (t :: s)).length := by
  obtain ⟨c, s', hs⟩ := NameChar.exists_text ht
  have hle := length_le_nameText s
  rw [nameText] at hle
  simp only [nameText, List.flatMap_cons, hs, List.length_append, List.length_cons]
  omega

/-- A comma or a space: the characters that end the text of a value. -/
def IsSep (c : Char) : Prop := c = ',' ∨ c = ' '

theorem digitChar_not_sep {n : ℕ} (hn : n < 16) : ¬ IsSep (Nat.digitChar n).toUpper := by
  have hall : ∀ n < 16, (Nat.digitChar n).toUpper ≠ ',' ∧ (Nat.digitChar n).toUpper ≠ ' ' := by decide
  exact fun h => h.elim (hall n hn).1 (hall n hn).2

/-- A separator on the page stands for itself, whether or not it is escaped. -/
theorem NameChar.char_eq_of_mem_text {t : NameChar} {c : Char} (hc : IsSep c) (h : c ∈ t.text) :
    t.char = c := by
  have hback : c ≠ '\\' := by rcases hc with rfl | rfl <;> decide
  cases t with
  | plain c' hc' => simpa [NameChar.text, NameChar.char, eq_comm] using h
  | escaped c' hc' => simpa [NameChar.text, NameChar.char, hback, eq_comm] using h
  | hex c' =>
    obtain ⟨b, -, hb⟩ := List.mem_flatMap.1 h
    have hlt := b.toNat_lt
    simp only [List.mem_cons, hback, List.not_mem_nil, or_false, false_or] at hb
    rcases hb with rfl | rfl
    · exact absurd hc (digitChar_not_sep (by omega))
    · exact absurd hc (digitChar_not_sep (by omega))

/-- When the value of a text that begins with an escape is also what the text begins with, there is
no separator in the text: the first one would stand further on in the value than in the text. -/
theorem not_mem_nameText_of_isPrefix {c : Char} (hc : IsSep c) {t : NameChar} (ht : t.isPlain = false)
    {s : List NameChar} (h : nameOf (t :: s) <+: nameText (t :: s)) : c ∉ nameText (t :: s) := by
  obtain ⟨rest, hrest⟩ := h
  have hback : c ≠ '\\' := by rcases hc with rfl | rfl <;> decide
  -- by induction over the characters of the value
  suffices hall : ∀ m, c ∉ nameText ((t :: s).take m) by
    simpa using hall (t :: s).length
  intro m
  induction m with
  | zero => simp [nameText]
  | succ m ih =>
    intro hmem
    by_cases hm : m < (t :: s).length
    · rw [List.take_succ_eq_append_getElem hm, nameText_append] at hmem
      rcases List.mem_append.1 hmem with hmem | hmem
      · exact ih hmem
      · have hchar : ((t :: s)[m]).char = c :=
          NameChar.char_eq_of_mem_text hc (by simpa [nameText] using hmem)
        have hget : (nameText (t :: s))[m]? = some c := by
          rw [← hrest, List.getElem?_append_left (by simpa [nameOf] using hm), nameOf,
            List.getElem?_map,
            List.getElem?_eq_getElem hm, Option.map_some, hchar]
        cases m with
        | zero =>
          obtain ⟨c', s', hs⟩ := NameChar.exists_text ht
          have hfirst : (nameText (t :: s))[0]? = some '\\' := by simp [nameText, hs]
          exact hback (Option.some.inj (hget.symm.trans hfirst))
        | succ m =>
          have hlong : m + 1 < (nameText ((t :: s).take (m + 1))).length := by
            have := length_lt_nameText ht (s.take m)
            rw [List.take_succ_cons]
            simp only [List.length_cons, List.length_take] at this hm ⊢
            omega
          rw [← List.take_append_drop (m + 1) (t :: s), nameText_append,
            List.getElem?_append_left hlong] at hget
          exact ih (List.mem_of_getElem? hget)
    · rw [List.take_of_length_le (by omega)] at hmem
      exact ih (by rwa [List.take_of_length_le (by omega)])

/-! ## Reading a value up to a comma -/

/-- `isascii` and `isprint`. -/
def isPrint (c : Char) : Bool := 0x20 ≤ c.toNat && c.toNat ≤ 0x7E

theorem eq_space_of_isPrint {c : Char} (hc : isPrint c) (hw : isWhiteSpace c) : c = ' ' := by
  have hnat : c.toNat = 0x20 := by
    simp only [isPrint, Bool.and_eq_true, decide_eq_true_eq] at hc
    simp only [isWhiteSpace, Bool.or_eq_true, Bool.and_eq_true, decide_eq_true_eq, beq_iff_eq] at hw
    omega
  exact Char.ext (UInt32.toNat_inj.1 hnat)

/-- What a line shows of a value: up to a comma, without trailing white space. -/
def shown (s : List Char) : List Char := (s.takeWhile fun c => c ≠ ',').rdropWhile isWhiteSpace

theorem shown_isPrefix (s : List Char) : shown s <+: s :=
  (List.rdropWhile_prefix _ _).trans (List.takeWhile_prefix _)

theorem decide_ne_comma {s : List Char} (h : ',' ∉ s) : ∀ c ∈ s, decide (c ≠ ',') := by
  intro c hc
  rw [decide_eq_true_iff]
  rintro rfl
  exact h hc

theorem shown_eq_self {s : List Char} (hcomma : ',' ∉ s)
    (hlast : ∀ c ∈ s.getLast?, isWhiteSpace c = false) : shown s = s := by
  have htake : (s.takeWhile fun c => c ≠ ',') = s :=
    List.takeWhile_eq_self_iff.2 (decide_ne_comma hcomma)
  rw [shown, htake, List.rdropWhile_eq_self_iff]
  intro hne
  simp [hlast _ (List.getLast?_eq_some_getLast hne)]

/-- Trimming a line first changes nothing. -/
theorem shown_rdropWhile (s : List Char) : shown (s.rdropWhile isWhiteSpace) = shown s := by
  by_cases h : ',' ∈ s
  · obtain ⟨a, b, rfl, ha⟩ := List.eq_append_cons_of_mem h
    rw [rdropWhile_append_cons (by decide), shown, shown,
      List.takeWhile_append_of_pos (decide_ne_comma ha),
      List.takeWhile_append_of_pos (decide_ne_comma ha)]
    rfl
  · have h' : ',' ∉ s.rdropWhile isWhiteSpace := fun hc => h ((List.rdropWhile_prefix _ _).subset hc)
    rw [shown, shown, List.takeWhile_eq_self_iff.2 (decide_ne_comma h),
      List.takeWhile_eq_self_iff.2 (decide_ne_comma h'), List.rdropWhile_idempotent]

/-- What comes after a value in a name: nothing, or a comma and the rest. -/
def IsTail (tail : List Char) : Prop := ∀ c ∈ tail.head?, c = ','

theorem shown_append_tail {tail : List Char} (htail : IsTail tail) {s : List Char}
    (hcomma : ',' ∉ s) (k : ℕ) :
    shown (s ++ tail.take k) = shown s := by
  have hrest : (tail.take k).takeWhile (fun c => c ≠ ',') = [] := by
    cases k with
    | zero => rfl
    | succ k =>
      cases tail with
      | nil => rfl
      | cons c tail => simp [htail c rfl]
  rw [shown, List.takeWhile_append_of_pos (decide_ne_comma hcomma), hrest, List.append_nil, shown,
    List.takeWhile_eq_self_iff.2 (decide_ne_comma hcomma)]

theorem length_nameOf (s : List NameChar) : (nameOf s).length = s.length := List.length_map _

theorem comma_not_mem_nameOf {s : List NameChar} (h : ∀ t ∈ s, t.isPlain) : ',' ∉ nameOf s := by
  intro hmem
  obtain ⟨t, ht, hchar⟩ := List.mem_map.1 hmem
  have hplain := h t ht
  cases t with
  | plain c hc =>
    rw [show c = ',' from hchar] at hc
    cases hc
  | escaped c hc => cases hplain
  | hex c => cases hplain

/-- The first character that does not stand for itself, if there is one. -/
theorem forall_isPlain_or_exists (s : List NameChar) :
    (∀ t ∈ s, t.isPlain) ∨
      ∃ a t b, s = a ++ t :: b ∧ (∀ t' ∈ a, t'.isPlain) ∧ t.isPlain = false := by
  induction s with
  | nil => exact .inl (by simp)
  | cons t s ih =>
    by_cases ht : t.isPlain
    · rcases ih with h | ⟨a, t', b, rfl, ha, ht'⟩
      · exact .inl (by simpa [ht] using h)
      · exact .inr ⟨t :: a, t', b, rfl, by simpa [ht] using ha, ht'⟩
    · exact .inr ⟨[], t, s, rfl, by simp, by simpa using ht⟩

section Shown

variable {s : List NameChar} {tail : List Char} (hprint : ∀ c ∈ nameText s, isPrint c)
  (hlast : ∀ t ∈ s.getLast?, t.isPlain → t.char ≠ ' ') (htail : IsTail tail) (k : ℕ)
include hprint hlast htail

/-- A value without escapes is shown when it fits. -/
theorem shown_take_eq_iff_of_isPlain (hs : ∀ t ∈ s, t.isPlain) :
    shown ((nameText s ++ tail).take k) = nameOf s ↔ (nameText s).take k = nameOf s := by
  rw [nameText_eq_nameOf hs] at hprint ⊢
  have hcomma := comma_not_mem_nameOf hs
  have hself : shown (nameOf s) = nameOf s := by
    refine shown_eq_self hcomma fun c hc => ?_
    rw [nameOf, List.getLast?_map, Option.mem_def, Option.map_eq_some_iff] at hc
    obtain ⟨t, ht, rfl⟩ := hc
    have hmem := List.mem_of_getLast? ht
    by_contra hw
    exact hlast t ht (hs t hmem)
      (eq_space_of_isPrint (hprint _ (List.mem_map_of_mem hmem)) (by simpa using hw))
  by_cases hk : (nameOf s).length ≤ k
  · rw [List.take_append, List.take_of_length_le hk, shown_append_tail htail hcomma, hself]
  · constructor
    · intro h
      have hle := (shown_isPrefix ((nameOf s ++ tail).take k)).length_le
      rw [h, List.length_take] at hle
      omega
    · intro h
      have hle := congrArg List.length h
      rw [List.length_take] at hle
      omega

end Shown

/-- The text ends with what is escaped, so its last character is no white space. -/
theorem isWhiteSpace_getLast {A T : List Char} (hprint : ∀ c ∈ T, isPrint c) (hsep : ' ' ∉ T)
    (hne : T ≠ []) :
    ∀ c ∈ (A ++ T).getLast?, isWhiteSpace c = false := by
  intro c hc
  rw [List.getLast?_append_of_ne_nil _ hne] at hc
  have hmem := List.mem_of_getLast? hc
  by_contra hw
  exact hsep (eq_space_of_isPrint (hprint c hmem) (by simpa using hw) ▸ hmem)

section Cut

/- A value and its text, from the first escape on: `A` stands before it, `D` is the value and `T` the
text. Where the value is what the text begins with, the text has no separator. -/
variable {A D T tail : List Char} {k : ℕ} (hcommaA : ',' ∉ A) (hlt : D.length < T.length)
  (hprint : ∀ c ∈ T, isPrint c) (hsep : A ++ D <+: A ++ T → ∀ c, IsSep c → c ∉ T)
include hcommaA hlt hprint hsep

theorem take_eq_of_shown_take_eq (hD : D ≠ []) (htail : IsTail tail)
    (h : shown ((A ++ T ++ tail).take k) = A ++ D) : (A ++ T).take k = A ++ D := by
  have hpre : A ++ D <+: A ++ T := by
    have hlong : A ++ D <+: (A ++ T) ++ tail := h ▸ (shown_isPrefix _).trans (List.take_prefix _ _)
    exact List.prefix_of_prefix_length_le hlong (List.prefix_append _ _) (by simp; omega)
  have hcomma : ',' ∉ A ++ T := by
    simpa [hcommaA] using hsep hpre ',' (.inl rfl)
  have hspace := hsep hpre ' ' (.inr rfl)
  have hT : T ≠ [] := List.ne_nil_of_length_pos (by omega)
  by_cases hk : (A ++ T).length ≤ k
  · -- the whole text would be shown, and it is longer than the value
    rw [List.take_append, List.take_of_length_le hk, shown_append_tail htail hcomma,
      shown_eq_self hcomma (isWhiteSpace_getLast hprint hspace hT)] at h
    have hlen := congrArg List.length h
    simp only [List.length_append] at hlen
    omega
  · rw [List.take_append_of_le_length (by omega)] at h
    by_cases hkA : k ≤ A.length
    · have hle := (shown_isPrefix ((A ++ T).take k)).length_le
      have hpos := List.length_pos_of_ne_nil hD
      rw [h, List.length_append, List.length_take] at hle
      omega
    · have hX : (A ++ T).take k = A ++ T.take (k - A.length) := by
        rw [List.take_append, List.take_of_length_le (by omega)]
      rw [← h, hX]
      refine (shown_eq_self ?_ (isWhiteSpace_getLast ?_ ?_ ?_)).symm
      · exact hX ▸ fun hc => hcomma (List.mem_of_mem_take hc)
      · exact fun c hc => hprint c (List.mem_of_mem_take hc)
      · exact fun hc => hspace (List.mem_of_mem_take hc)
      · simp [hT]
        omega

theorem shown_take_eq_of_take_eq (hD : D ≠ []) (h : (A ++ T).take k = A ++ D) :
    shown ((A ++ T ++ tail).take k) = A ++ D := by
  have hpre : A ++ D <+: A ++ T := h ▸ List.take_prefix _ _
  have hDT : D <+: T := by rwa [List.prefix_append_right_inj] at hpre
  have hk : k ≤ (A ++ T).length := by
    by_contra hcon
    rw [List.take_of_length_le (by omega)] at h
    have hlen := congrArg List.length h
    simp only [List.length_append] at hlen
    omega
  rw [List.take_append_of_le_length hk, h]
  refine shown_eq_self ?_ (isWhiteSpace_getLast (fun c hc => hprint c (hDT.subset hc)) ?_ hD)
  · simpa [hcommaA] using fun hc => hsep hpre ',' (.inl rfl) (hDT.subset hc)
  · exact fun hc => hsep hpre ' ' (.inr rfl) (hDT.subset hc)

end Cut

/-- A value with an escape is shown when the text is cut where it happens to be the value. -/
theorem shown_take_eq_iff_of_escape {a b : List NameChar} {t : NameChar}
    (ha : ∀ t' ∈ a, t'.isPlain) (ht : t.isPlain = false)
    (hprint : ∀ c ∈ nameText (a ++ t :: b), isPrint c) {tail : List Char} (htail : IsTail tail)
    (k : ℕ) :
    shown ((nameText (a ++ t :: b) ++ tail).take k) = nameOf (a ++ t :: b) ↔
      (nameText (a ++ t :: b)).take k = nameOf (a ++ t :: b) := by
  have hcommaA : ',' ∉ nameOf a := comma_not_mem_nameOf ha
  have hlt : (nameOf (t :: b)).length < (nameText (t :: b)).length :=
    length_nameOf (t :: b) ▸ length_lt_nameText ht b
  have hD : nameOf (t :: b) ≠ [] := by simp [nameOf]
  have hof : nameOf (a ++ t :: b) = nameOf a ++ nameOf (t :: b) := List.map_append
  rw [nameText_append, nameText_eq_nameOf ha] at hprint ⊢
  rw [hof]
  have hprintT : ∀ c ∈ nameText (t :: b), isPrint c :=
    fun c hc => hprint c (List.mem_append_right _ hc)
  have hsep : nameOf a ++ nameOf (t :: b) <+: nameOf a ++ nameText (t :: b) →
      ∀ c, IsSep c → c ∉ nameText (t :: b) := by
    intro hpre c hc
    rw [List.prefix_append_right_inj] at hpre
    exact not_mem_nameText_of_isPrefix hc ht hpre
  exact ⟨take_eq_of_shown_take_eq hcommaA hlt hprintT hsep hD htail,
    shown_take_eq_of_take_eq hcommaA hlt hprintT hsep hD⟩

/-- A line that shows the first `k` characters of a value shows the value just when these are the
value. -/
theorem shown_take_eq_iff {s : List NameChar} (hprint : ∀ c ∈ nameText s, isPrint c)
    (hlast : ∀ t ∈ s.getLast?, t.isPlain → t.char ≠ ' ') {tail : List Char} (htail : IsTail tail)
    (k : ℕ) :
    shown ((nameText s ++ tail).take k) = nameOf s ↔ (nameText s).take k = nameOf s := by
  rcases forall_isPlain_or_exists s with hs | ⟨a, t, b, rfl, ha, ht⟩
  · exact shown_take_eq_iff_of_isPlain hprint hlast htail k hs
  · exact shown_take_eq_iff_of_escape ha ht hprint htail k

/-! ## Entries as they are printed -/

/-- `isascii` and `isgraph`. -/
def isGraph (c : Char) : Bool := 0x21 ≤ c.toNat && c.toNat ≤ 0x7E

/-- A value that is printed as it is. -/
def isSafe (value : List Char) : Bool :=
  value.all isPrint && value.head?.all (fun c => isGraph c && c ≠ ':' && c ≠ '<') &&
    value.getLast?.all isGraph

/-- The width at which a line is folded. -/
def lineWidth : ℕ := 76

/-- What fits in the room that is left on a line, and the lines that go on, each after a space. -/
def fold : ℕ → List Char → List Char × List (List Char)
  | _, [] => ([], [])
  | 0, c :: s => ([], (c :: (fold (lineWidth - 2) s).1) :: (fold (lineWidth - 2) s).2)
  | room + 1, c :: s => (c :: (fold room s).1, (fold room s).2)

/-- The lines of a text after a label. -/
def folded (label text : List Char) : List (List Char) :=
  (label ++ (fold (lineWidth - label.length) text).1) ::
    (fold (lineWidth - label.length) text).2.map (' ' :: ·)

/-- The lines of an attribute. -/
def attributeLines (encode : List Char → List Char) (name value : List Char) : List (List Char) :=
  if value = [] then [name ++ [':']]
  else if isSafe value then folded (name ++ [':', ' ']) value
  else folded (name ++ [':', ':', ' ']) (encode value)

/-- The text of some lines. -/
def printed (ls : List (List Char)) : List Char := ls.flatMap fun l => l ++ ['\n']

theorem fold_fst (room : ℕ) (s : List Char) : (fold room s).1 = s.take room := by
  induction room, s using fold.induct with
  | case1 room => simp [fold]
  | case2 c s ih => simp [fold]
  | case3 room c s ih => simp [fold, ih]

theorem mem_of_mem_fold {room : ℕ} {s l : List Char} (hl : l ∈ (fold room s).2) {c : Char}
    (hc : c ∈ l) :
    c ∈ s := by
  induction room, s using fold.induct generalizing l with
  | case1 room => simp [fold] at hl
  | case2 c' s ih =>
    rw [fold, List.mem_cons] at hl
    rcases hl with rfl | hl
    · rcases List.mem_cons.1 hc with rfl | hc
      · exact List.mem_cons_self
      · rw [fold_fst] at hc
        exact List.mem_cons_of_mem _ (List.mem_of_mem_take hc)
    · exact List.mem_cons_of_mem _ (ih hl hc)
  | case3 room c' s ih => exact List.mem_cons_of_mem _ (ih hl hc)

/-- The characters of folded lines are those of the label and the text, and spaces. -/
theorem mem_folded {label text l : List Char} (hl : l ∈ folded label text) {c : Char} (hc : c ∈ l) :
    c ∈ label ∨ c ∈ text ∨ c = ' ' := by
  rcases List.mem_cons.1 hl with rfl | hl
  · rcases List.mem_append.1 hc with hc | hc
    · exact .inl hc
    · rw [fold_fst] at hc
      exact .inr (.inl (List.mem_of_mem_take hc))
  · obtain ⟨l', hl', rfl⟩ := List.mem_map.1 hl
    rcases List.mem_cons.1 hc with rfl | hc
    · exact .inr (.inr rfl)
    · exact .inr (.inl (mem_of_mem_fold hl' hc))

theorem isPrint_of_isSafe {value : List Char} (h : isSafe value) : ∀ c ∈ value, isPrint c := by
  simp only [isSafe, Bool.and_eq_true, List.all_eq_true] at h
  exact h.1.1

/-- The lines of an attribute have printable characters only. -/
theorem isPrint_attributeLines {encode : List Char → List Char}
    (hencode : ∀ v, ∀ c ∈ encode v, isPrint c)
    {name : List Char} (hname : ∀ c ∈ name, isPrint c) {value l : List Char}
    (hl : l ∈ attributeLines encode name value) : ∀ c ∈ l, isPrint c := by
  intro c hc
  have hlabel : ∀ label : List Char, label.all isPrint → ∀ c ∈ name ++ label, isPrint c :=
    fun label h c hc => (List.mem_append.1 hc).elim (hname c) (List.all_eq_true.1 h c)
  unfold attributeLines at hl
  split_ifs at hl with hnil hsafe
  · rw [List.mem_singleton.1 hl] at hc
    exact hlabel [':'] (by decide) c hc
  · rcases mem_folded hl hc with hc | hc | rfl
    · exact hlabel [':', ' '] (by decide) c hc
    · exact isPrint_of_isSafe hsafe c hc
    · decide
  · rcases mem_folded hl hc with hc | hc | rfl
    · exact hlabel [':', ':', ' '] (by decide) c hc
    · exact hencode value c hc
    · decide

theorem exists_attributeLines (encode : List Char → List Char) (name value : List Char) :
    ∃ r ls, attributeLines encode name value = (name ++ ':' :: r) :: ls := by
  unfold attributeLines
  split_ifs
  · exact ⟨_, _, rfl⟩
  · exact ⟨_, _, by rw [folded, List.append_assoc]; rfl⟩
  · exact ⟨_, _, by rw [folded, List.append_assoc]; rfl⟩

/-- Printed lines are read back. -/
theorem lines_printed {ls : List (List Char)} (h : ∀ l ∈ ls, ∀ c ∈ l, isPrint c) :
    lines (printed ls) = ls := by
  refine lines_flatMap fun l hl => ⟨fun hc => absurd (h l hl _ hc) (by decide), fun hc => ?_⟩
  exact absurd (h l hl _ (List.mem_of_getLast? hc)) (by decide)

end OCF.Ldap
