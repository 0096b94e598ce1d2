import OCF.Foundations.JsonText

/-!
# A JSON text has one reading

No two values are written as the same text, whatever white space is put between the tokens:
`Value.eq_of_render_eq`. A string ends at the first quote that no backslash stands before, a number
where the characters of numbers end, and the first character of a token tells its kind
(`render_inj`); no value begins another one (`Value.tokens_append_inj`). So what a text is written
for is also what any reader of it gets.
-/

namespace OCF.JsonText

open OCF.Text

/-! ## Strings -/

theorem Escape.letter_injective : Function.Injective Escape.letter := by
  intro e e' h
  cases e <;> cases e' <;> first | rfl | exact absurd h (by decide)

theorem Escape.letter_ne_u (e : Escape) : e.letter ≠ 'u' := by
  cases e <;> decide

/-- No character of a string begins another one. -/
theorem RawChar.text_append_inj {x y : RawChar} {a b : List Char}
    (h : x.text ++ a = y.text ++ b) : x = y ∧ a = b := by
  cases x with
  | plain c hc =>
    have hback := (isPlain_iff.1 hc).2.1
    cases y with
    | plain c' hc' => simpa [text] using h
    | escape e => simp [text, hback] at h
    | unicode a' b' c' d' => simp [text, hback] at h
  | escape e =>
    cases y with
    | plain c hc => simp [text, Ne.symm (isPlain_iff.1 hc).2.1] at h
    | escape e' =>
      simp only [text, List.cons_append, List.nil_append, List.cons.injEq, true_and] at h
      exact ⟨by rw [Escape.letter_injective h.1], h.2⟩
    | unicode a' b' c' d' => simp [text, e.letter_ne_u] at h
  | unicode a₀ b₀ c₀ d₀ =>
    cases y with
    | plain c hc => simp [text, Ne.symm (isPlain_iff.1 hc).2.1] at h
    | escape e => simp [text, Ne.symm e.letter_ne_u] at h
    | unicode a' b' c' d' => simpa [text, Subtype.ext_iff, and_assoc] using h

theorem RawChar.text_append_ne_quote (x : RawChar) (a b : List Char) : x.text ++ a ≠ '"' :: b := by
  cases x with
  | plain c hc => simp [text, (isPlain_iff.1 hc).1]
  | escape e => simp [text]
  | unicode a b c d => simp [text]

/-- A string ends at the first quote that no backslash stands before. -/
theorem rawText_quote_inj {s s' : Raw} {a b : List Char}
    (h : rawText s ++ '"' :: a = rawText s' ++ '"' :: b) : s = s' ∧ a = b := by
  induction s generalizing s' with
  | nil =>
    cases s' with
    | nil => simpa [rawText] using h
    | cons x' s' =>
      rw [rawText, rawText, List.flatMap_nil, List.nil_append, List.flatMap_cons,
        List.append_assoc] at h
      exact absurd h.symm (x'.text_append_ne_quote _ _)
  | cons x s ih =>
    cases s' with
    | nil =>
      rw [rawText, rawText, List.flatMap_nil, List.nil_append, List.flatMap_cons,
        List.append_assoc] at h
      exact absurd h (x.text_append_ne_quote _ _)
    | cons x' s' =>
      rw [rawText, rawText, List.flatMap_cons, List.flatMap_cons, List.append_assoc,
        List.append_assoc] at h
      obtain ⟨rfl, htail⟩ := RawChar.text_append_inj h
      obtain ⟨rfl, hrest⟩ := ih htail
      exact ⟨rfl, hrest⟩

/-- An escape of a character outside the surrogates stands for that character, whatever follows. -/
theorem decode_unicode_cons {a b c d : HexDigit} (h : codeUnit a b c d < 0xD800) (s : Raw) :
    decode (.unicode a b c d :: s) = Char.ofNat (codeUnit a b c d) :: decode s := by
  have hlow : ¬ 0xD800 ≤ codeUnit a b c d := by omega
  cases s with
  | nil => simp [decode, hlow]
  | cons x s => cases x <;> simp [decode, hlow]

/-! ## Tokens -/

/-- A character that numbers are made of. -/
def isNumberChar (c : Char) : Bool := c.isDigit || c ∈ ['-', '+', '.', 'e', 'E']

/-- A text in which a number before it would not go on. -/
def EndsNumber (s : List Char) : Prop := ∀ c ∈ s.head?, isNumberChar c = false

theorem takeWhile_number (n : Number) {a : List Char} (ha : EndsNumber a) :
    (n.chars ++ a).takeWhile isNumberChar = n.chars := by
  have hn : ∀ c ∈ n.chars, isNumberChar c := n.ok
  rw [List.takeWhile_append_of_pos hn]
  cases a with
  | nil => simp
  | cons c a => rw [List.takeWhile_cons_of_neg (by simp [ha c rfl]), List.append_nil]

theorem number_append_inj {n n' : Number} {a b : List Char} (ha : EndsNumber a)
    (hb : EndsNumber b) (h : n.chars ++ a = n'.chars ++ b) : n = n' ∧ a = b := by
  have hchars : n.chars = n'.chars := by
    rw [← takeWhile_number n ha, h, takeWhile_number n' hb]
  refine ⟨?_, ?_⟩
  · cases n
    cases n'
    simpa using hchars
  · rw [hchars] at h
    exact List.append_cancel_left h

/-- The kinds of tokens. -/
inductive Kind
  | punct
  | str
  | number
  | bool
  | null
  deriving DecidableEq

def Tok.kind : Tok → Kind
  | .punct _ => .punct
  | .str _ => .str
  | .number _ => .number
  | .bool _ => .bool
  | .null => .null

/-- The kind of the token that a character begins. -/
def kindOf (c : Char) : Kind :=
  if c = '"' then .str else if c.isDigit || c = '-' then .number
  else if c = 't' || c = 'f' then .bool else if c = 'n' then .null else .punct

theorem Tok.kind_eq {t : Tok} {c : Char} {a s : List Char} (h : t.text ++ a = c :: s) :
    t.kind = kindOf c := by
  cases t with
  | punct p =>
    obtain ⟨rfl, -⟩ := List.cons.inj h
    cases p <;> rfl
  | str s =>
    obtain ⟨rfl, -⟩ := List.cons.inj h
    rfl
  | number n =>
    obtain ⟨c', s', hs, hc⟩ := n.exists_chars
    have hne : c' ≠ '"' := by
      rintro rfl
      exact absurd hc (by decide)
    rw [text, hs, List.cons_append] at h
    obtain ⟨rfl, -⟩ := List.cons.inj h
    simp [kind, kindOf, hne, hc]
  | bool b =>
    cases b with
    | true =>
      obtain ⟨rfl, -⟩ := List.cons.inj h
      rfl
    | false =>
      obtain ⟨rfl, -⟩ := List.cons.inj h
      rfl
  | null =>
    obtain ⟨rfl, -⟩ := List.cons.inj h
    rfl

theorem Punct.char_injective : Function.Injective Punct.char := by
  intro p p' h
  cases p <;> cases p' <;> first | rfl | exact absurd h (by decide)

/-- No token begins another one, except that a number has to end. -/
theorem Tok.text_append_inj {t t' : Tok} {a b : List Char}
    (ha : t.kind = .number → EndsNumber a) (hb : t'.kind = .number → EndsNumber b)
    (h : t.text ++ a = t'.text ++ b) : t = t' ∧ a = b := by
  have hkind : t.kind = t'.kind := by
    obtain ⟨c, s, hs, -⟩ := t'.exists_text
    rw [hs, List.cons_append] at h
    rw [Tok.kind_eq h, Tok.kind_eq (t := t') (a := b) (by rw [hs, List.cons_append])]
  cases t with
  | punct p =>
    cases t' with
    | punct p' =>
      obtain ⟨hp, hab⟩ := List.cons.inj h
      exact ⟨by rw [Punct.char_injective hp], hab⟩
    | _ => exact absurd hkind (by simp [kind])
  | str s =>
    cases t' with
    | str s' =>
      simp only [text, List.cons_append, List.append_assoc, List.nil_append, List.cons.injEq,
        true_and] at h
      obtain ⟨rfl, hab⟩ := rawText_quote_inj h
      exact ⟨rfl, hab⟩
    | _ => exact absurd hkind (by simp [kind])
  | number n =>
    cases t' with
    | number n' =>
      obtain ⟨rfl, hab⟩ := number_append_inj (ha rfl) (hb rfl) h
      exact ⟨rfl, hab⟩
    | _ => exact absurd hkind (by simp [kind])
  | bool v =>
    cases t' with
    | bool v' => cases v <;> cases v' <;> simp_all [text]
    | _ => exact absurd hkind (by simp [kind])
  | null =>
    cases t' with
    | null => exact ⟨rfl, List.append_cancel_left h⟩
    | _ => exact absurd hkind (by simp [kind])

/-- White space and punctuation end a number. -/
theorem endsNumber_render {ts : List Tok} (hts : PunctNext ts) (ws : ℕ → Ws) :
    EndsNumber (render ts ws) := by
  have hspace : ∀ c ∈ (ws 0).chars, isNumberChar c = false := by
    intro c hc
    have hmem := (ws 0).ok c hc
    simp only [List.mem_cons, List.not_mem_nil, or_false] at hmem
    rcases hmem with rfl | rfl | rfl | rfl <;> decide
  intro c hc
  cases hws : (ws 0).chars with
  | cons c' chars =>
    have hc' : c = c' := by cases ts <;> simpa [render, hws, eq_comm] using hc
    exact hc' ▸ hspace c' (by simp [hws])
  | nil =>
    cases ts with
    | nil => simp [render, hws] at hc
    | cons t ts =>
      obtain ⟨p, rfl⟩ := hts t rfl
      have hc' : c = p.char := by simpa [render, hws, Tok.text, eq_comm] using hc
      rw [hc']
      cases p <;> decide

theorem Apart.tail {t : Tok} {ts : List Tok} (h : Apart (t :: ts)) : Apart ts := by
  cases t with
  | punct p => exact h
  | _ => exact h.2

theorem Apart.endsNumber {t : Tok} {ts : List Tok} (h : Apart (t :: ts)) (ht : t.kind = .number)
    (ws : ℕ → Ws) : EndsNumber (render ts ws) := by
  cases t with
  | number n => exact endsNumber_render h.1 ws
  | _ => exact absurd ht (by simp [Tok.kind])

/-- **A text has one sequence of tokens.** -/
theorem render_inj {ts ts' : List Tok} (hts : Apart ts) (hts' : Apart ts') {ws ws' : ℕ → Ws}
    (h : render ts ws = render ts' ws') : ts = ts' := by
  induction ts generalizing ts' ws ws' with
  | nil =>
    cases ts' with
    | nil => rfl
    | cons t' ts' =>
      obtain ⟨c, s, hs, -⟩ := t'.exists_text
      have htrim := congrArg trimStart h
      rw [trimStart_render_nil, trimStart_render_cons, hs] at htrim
      simp at htrim
  | cons t ts ih =>
    have htrim := congrArg trimStart h
    cases ts' with
    | nil =>
      obtain ⟨c, s, hs, -⟩ := t.exists_text
      rw [trimStart_render_nil, trimStart_render_cons, hs] at htrim
      simp at htrim
    | cons t' ts' =>
      rw [trimStart_render_cons, trimStart_render_cons] at htrim
      obtain ⟨rfl, htail⟩ := Tok.text_append_inj (fun ht => hts.endsNumber ht _)
        (fun ht => hts'.endsNumber ht _) htrim
      rw [ih hts.tail hts'.tail htail]

/-! ## Values -/

/-- The tokens after what closes an array are no tokens of an array that goes on. -/
theorem Items.tokens_cons_ne (v : Value) (items : Items) (first : Bool) (rest rest' : List Tok) :
    (Items.cons v items).tokens first ++ rest ≠ .punct .bracketClose :: rest' := by
  cases first with
  | true =>
    obtain ⟨ts, hts⟩ := v.exists_tokens
    rw [Items.tokens, hts]
    cases v <;> simp [Value.first]
  | false => simp [Items.tokens]

theorem Members.tokens_cons_ne (key : Raw) (v : Value) (members : Members) (first : Bool)
    (rest rest' : List Tok) :
    (Members.cons key v members).tokens first ++ rest ≠ .punct .braceClose :: rest' := by
  cases first with
  | true => simp [Members.tokens]
  | false => simp [Members.tokens]

-- one induction over values, items and members: each of the three uses the other two
mutual

/-- No value begins another one. -/
theorem Value.tokens_append_inj (v v' : Value) {rest rest' : List Tok}
    (h : v.tokens ++ rest = v'.tokens ++ rest') : v = v' ∧ rest = rest' := by
  cases v with
  | null => cases v' <;> simp_all [Value.tokens]
  | bool b => cases v' <;> simp_all [Value.tokens]
  | number n => cases v' <;> simp_all [Value.tokens]
  | str s => cases v' <;> simp_all [Value.tokens]
  | arr items =>
    cases v' with
    | arr items' =>
      rw [Value.tokens, Value.tokens, List.cons_append, List.cons_append, List.append_assoc,
        List.append_assoc] at h
      obtain ⟨hitems, hrest⟩ := items.tokens_append_inj items' true (List.cons.inj h).2
      exact ⟨by rw [hitems], hrest⟩
    | _ => simp [Value.tokens] at h
  | obj members =>
    cases v' with
    | obj members' =>
      rw [Value.tokens, Value.tokens, List.cons_append, List.cons_append, List.append_assoc,
        List.append_assoc] at h
      obtain ⟨hmembers, hrest⟩ := members.tokens_append_inj members' true (List.cons.inj h).2
      exact ⟨by rw [hmembers], hrest⟩
    | _ => simp [Value.tokens] at h

theorem Items.tokens_append_inj (items items' : Items) (first : Bool) {rest rest' : List Tok}
    (h : items.tokens first ++ .punct .bracketClose :: rest =
      items'.tokens first ++ .punct .bracketClose :: rest') : items = items' ∧ rest = rest' := by
  cases items with
  | nil =>
    cases items' with
    | nil => exact ⟨rfl, (List.cons.inj h).2⟩
    | cons v' items' => exact absurd h.symm (Items.tokens_cons_ne v' items' first _ _)
  | cons v items =>
    cases items' with
    | nil => exact absurd h (Items.tokens_cons_ne v items first _ _)
    | cons v' items' =>
      rw [Items.tokens, Items.tokens, List.append_assoc, List.append_assoc, List.append_assoc,
        List.append_assoc] at h
      obtain ⟨rfl, htail⟩ := v.tokens_append_inj v' (List.append_cancel_left h)
      obtain ⟨rfl, hrest⟩ := items.tokens_append_inj items' false htail
      exact ⟨rfl, hrest⟩

theorem Members.tokens_append_inj (members members' : Members) (first : Bool)
    {rest rest' : List Tok}
    (h : members.tokens first ++ .punct .braceClose :: rest =
      members'.tokens first ++ .punct .braceClose :: rest') :
    members = members' ∧ rest = rest' := by
  cases members with
  | nil =>
    cases members' with
    | nil => exact ⟨rfl, (List.cons.inj h).2⟩
    | cons key' v' members' =>
      exact absurd h.symm (Members.tokens_cons_ne key' v' members' first _ _)
  | cons key v members =>
    cases members' with
    | nil => exact absurd h (Members.tokens_cons_ne key v members first _ _)
    | cons key' v' members' =>
      rw [Members.tokens, Members.tokens, List.append_assoc, List.append_assoc] at h
      have hmember := List.append_cancel_left h
      simp only [List.cons_append, List.append_assoc, List.cons.injEq, Tok.str.injEq,
        true_and] at hmember
      obtain ⟨rfl, hv⟩ := hmember
      obtain ⟨rfl, htail⟩ := v.tokens_append_inj v' hv
      obtain ⟨rfl, hrest⟩ := members.tokens_append_inj members' false htail
      exact ⟨rfl, hrest⟩

end

/-- **A text is the text of one value.** -/
theorem Value.eq_of_render_eq {v v' : Value} {ws ws' : ℕ → Ws}
    (h : render v.tokens ws = render v'.tokens ws') : v = v' := by
  have htokens := render_inj v.apart_tokens v'.apart_tokens h
  exact (@Value.tokens_append_inj v v' [] [] (by rw [htokens])).1

/-! ## What a text says -/

/-- The members of an object, each name as what it stands for. -/
def Members.entries : Members → List (String × Value)
  | .nil => []
  | .cons key v members => (String.ofList (decode key), v) :: members.entries

/-- A text is the text of a value, with some white space between its tokens. -/
def Says (text : String) (v : Value) : Prop := ∃ ws, text.toList = render v.tokens ws

/-- A text says one thing. -/
theorem Says.unique {text : String} {v v' : Value} (h : Says text v) (h' : Says text v') :
    v = v' := by
  obtain ⟨ws, hws⟩ := h
  obtain ⟨ws', hws'⟩ := h'
  exact Value.eq_of_render_eq (hws.symm.trans hws')

/-- The text without white space. -/
theorem render_none (ts : List Tok) : render ts (fun _ => Ws.none) = ts.flatMap Tok.text := by
  induction ts with
  | nil => rfl
  | cons t ts ih => rw [render, ih, Ws.none, List.nil_append, List.flatMap_cons]

end OCF.JsonText
