import OCF.Foundations.Text

/-!
# JSON texts

A JSON text is a sequence of tokens with white space between them. A string token is kept as it is
written, with its escapes: what it stands for is `decode`, what is on the page is `rawText`. A value
is a tree, and `Value.tokens` are its tokens; `render` puts white space of any kind before each of
them.

The main result is about a search for a quoted word in such a text, `matchRests_render`: the word is
found where a string token is just that word, and where one ends with an escaped quote and the word.
Quotes stand nowhere else, and after a string there is never a letter.
-/

namespace OCF.JsonText

open OCF.Text

/-! ## Strings as they are written -/

/-- The characters that are escaped by a single letter. -/
inductive Escape
  | quote
  | backslash
  | slash
  | backspace
  | formFeed
  | lineFeed
  | carriageReturn
  | tab
  deriving DecidableEq

/-- What follows the backslash. -/
def Escape.letter : Escape → Char
  | .quote => '"'
  | .backslash => '\\'
  | .slash => '/'
  | .backspace => 'b'
  | .formFeed => 'f'
  | .lineFeed => 'n'
  | .carriageReturn => 'r'
  | .tab => 't'

/-- The character that an escape stands for. -/
def Escape.char : Escape → Char
  | .quote => '"'
  | .backslash => '\\'
  | .slash => '/'
  | .backspace => '\x08'
  | .formFeed => '\x0c'
  | .lineFeed => '\n'
  | .carriageReturn => '\r'
  | .tab => '\t'

/-- A hexadecimal digit, in either case. -/
def isHexDigit (c : Char) : Bool :=
  c.isDigit || ('a' ≤ c && c ≤ 'f') || ('A' ≤ c && c ≤ 'F')

/-- A hexadecimal digit, in either case. -/
abbrev HexDigit := { c : Char // isHexDigit c }

/-- The value of a digit. -/
def HexDigit.value (d : HexDigit) : ℕ :=
  if d.1.isDigit then d.1.toNat - 48 else if d.1.isUpper then d.1.toNat - 55 else d.1.toNat - 87

/-- A character that stands for itself in a string. -/
def isPlain (c : Char) : Bool := c ≠ '"' && c ≠ '\\' && 0x20 ≤ c.toNat

/-- A character of a string as it is written. -/
inductive RawChar
  | plain (c : Char) (h : isPlain c)
  | escape (e : Escape)
  | unicode (a b c d : HexDigit)
  deriving DecidableEq

/-- A string as it is written between its quotes. -/
abbrev Raw := List RawChar

/-- What is written for a character. -/
def RawChar.text : RawChar → List Char
  | .plain c _ => [c]
  | .escape e => ['\\', e.letter]
  | .unicode a b c d => ['\\', 'u', a.1, b.1, c.1, d.1]

/-- What is on the page between the quotes. -/
def rawText (s : Raw) : List Char := s.flatMap RawChar.text

/-- The UTF-16 code unit of four digits. -/
def codeUnit (a b c d : HexDigit) : ℕ :=
  ((a.value * 16 + b.value) * 16 + c.value) * 16 + d.value

/-- What a string stands for. Two escaped surrogates are one character; one alone is replaced. -/
def decode : Raw → List Char
  | [] => []
  | .plain c _ :: s => c :: decode s
  | .escape e :: s => e.char :: decode s
  | .unicode a b c d :: .unicode a' b' c' d' :: s =>
    let hi := codeUnit a b c d
    let lo := codeUnit a' b' c' d'
    if 0xD800 ≤ hi ∧ hi < 0xDC00 ∧ 0xDC00 ≤ lo ∧ lo < 0xE000 then
      Char.ofNat (0x10000 + (hi - 0xD800) * 0x400 + (lo - 0xDC00)) :: decode s
    else (if 0xD800 ≤ hi ∧ hi < 0xE000 then '\uFFFD' else Char.ofNat hi) ::
      decode (.unicode a' b' c' d' :: s)
  | .unicode a b c d :: s =>
    let unit := codeUnit a b c d
    (if 0xD800 ≤ unit ∧ unit < 0xE000 then '\uFFFD' else Char.ofNat unit) :: decode s

/-! ## Tokens -/

/-- The punctuation of JSON. -/
inductive Punct
  | braceOpen
  | braceClose
  | bracketOpen
  | bracketClose
  | comma
  | colon
  deriving DecidableEq

/-- A punctuation mark as a character. -/
def Punct.char : Punct → Char
  | .braceOpen => '\x7b'
  | .braceClose => '\x7d'
  | .bracketOpen => '['
  | .bracketClose => ']'
  | .comma => ','
  | .colon => ':'

/-- A number as it is written: the characters that numbers are made of. -/
structure Number where
  chars : List Char
  nonempty : chars ≠ []
  ok : ∀ c ∈ chars, c.isDigit || c ∈ ['-', '+', '.', 'e', 'E']
  head : ∀ c ∈ chars.head?, c.isDigit || c = '-'

/-- The tokens of a text. -/
inductive Tok
  | punct (p : Punct)
  | str (s : Raw)
  | number (n : Number)
  | bool (b : Bool)
  | null

/-- A token as it is written. -/
def Tok.text : Tok → List Char
  | .punct p => [p.char]
  | .str s => '"' :: rawText s ++ ['"']
  | .number n => n.chars
  | .bool b => if b then "true".toList else "false".toList
  | .null => "null".toList

/-- White space between tokens. -/
structure Ws where
  chars : List Char
  ok : ∀ c ∈ chars, c ∈ [' ', '\t', '\n', '\r']

/-- No white space. -/
def Ws.none : Ws := ⟨[], by simp⟩

/-- The text of tokens, with white space before each and at the end. -/
def render : List Tok → (ℕ → Ws) → List Char
  | [], ws => (ws 0).chars
  | t :: ts, ws => (ws 0).chars ++ (t.text ++ render ts fun i => ws (i + 1))

/-! ## Values -/

mutual

/-- The values of JSON, with strings and numbers as they are written. -/
inductive Value
  | null
  | bool (b : Bool)
  | number (n : Number)
  | str (s : Raw)
  | arr (items : Items)
  | obj (members : Members)

/-- The items of an array. -/
inductive Items
  | nil
  | cons (head : Value) (tail : Items)

/-- The members of an object. -/
inductive Members
  | nil
  | cons (key : Raw) (value : Value) (tail : Members)

end

mutual

/-- The tokens of a value. -/
def Value.tokens : Value → List Tok
  | .null => [.null]
  | .bool b => [.bool b]
  | .number n => [.number n]
  | .str s => [.str s]
  | .arr items => .punct .bracketOpen :: (items.tokens true ++ [.punct .bracketClose])
  | .obj members => .punct .braceOpen :: (members.tokens true ++ [.punct .braceClose])

/-- The tokens of the items of an array, with a comma before each but the first. -/
def Items.tokens : Bool → Items → List Tok
  | _, .nil => []
  | first, .cons v items =>
    (if first then [] else [.punct .comma]) ++ (v.tokens ++ items.tokens false)

/-- The tokens of the members of an object. -/
def Members.tokens : Bool → Members → List Tok
  | _, .nil => []
  | first, .cons key v members =>
    (if first then [] else [.punct .comma]) ++
      (.str key :: .punct .colon :: (v.tokens ++ members.tokens false))

end

/-- Nothing but punctuation comes next. -/
def PunctNext (ts : List Tok) : Prop := ∀ t ∈ ts.head?, ∃ p, t = .punct p

/-- After every string there is punctuation or the end. -/
def Separated : List Tok → Prop
  | [] => True
  | .str _ :: ts => PunctNext ts ∧ Separated ts
  | _ :: ts => Separated ts

/-- After every token that is no punctuation there is punctuation or the end. -/
def Apart : List Tok → Prop
  | [] => True
  | .punct _ :: ts => Apart ts
  | _ :: ts => PunctNext ts ∧ Apart ts

theorem Apart.separated {ts : List Tok} (h : Apart ts) : Separated ts := by
  induction ts with
  | nil => trivial
  | cons t ts ih =>
    cases t with
    | punct p => exact ih h
    | str s => exact ⟨h.1, ih h.2⟩
    | number n => exact ih h.2
    | bool b => exact ih h.2
    | null => exact ih h.2

theorem PunctNext.append {ts ts' : List Tok} (h : PunctNext ts) (h' : PunctNext ts') :
    PunctNext (ts ++ ts') := by
  cases ts with
  | nil => exact h'
  | cons t ts => exact h

theorem punctNext_cons (p : Punct) (ts : List Tok) : PunctNext (.punct p :: ts) := by
  intro t ht
  exact ⟨p, by simpa using ht.symm⟩

theorem Items.punctNext (items : Items) : PunctNext (items.tokens false) := by
  cases items with
  | nil => simp [PunctNext, Items.tokens]
  | cons v items => exact punctNext_cons _ _

theorem Members.punctNext (members : Members) : PunctNext (members.tokens false) := by
  cases members with
  | nil => simp [PunctNext, Members.tokens]
  | cons key v members => exact punctNext_cons _ _

mutual

/-- The tokens of a value are kept apart, from each other and from what follows. -/
theorem Value.apart (v : Value) {rest : List Tok} (hrest : Apart rest) (hnext : PunctNext rest) :
    Apart (v.tokens ++ rest) := by
  cases v with
  | null => exact ⟨hnext, hrest⟩
  | bool b => exact ⟨hnext, hrest⟩
  | number n => exact ⟨hnext, hrest⟩
  | str s => exact ⟨hnext, hrest⟩
  | arr items =>
    have hclose : Apart (.punct .bracketClose :: rest) := hrest
    rw [Value.tokens, List.cons_append, List.append_assoc]
    exact items.apart true hclose (punctNext_cons _ _)
  | obj members =>
    have hclose : Apart (.punct .braceClose :: rest) := hrest
    rw [Value.tokens, List.cons_append, List.append_assoc]
    exact members.apart true hclose (punctNext_cons _ _)

theorem Items.apart (items : Items) (first : Bool) {rest : List Tok} (hrest : Apart rest)
    (hnext : PunctNext rest) : Apart (items.tokens first ++ rest) := by
  cases items with
  | nil => exact hrest
  | cons v items =>
    have htail := items.apart false hrest hnext
    have hv := v.apart htail (items.punctNext.append hnext)
    rw [Items.tokens, List.append_assoc, List.append_assoc]
    cases first with
    | true => exact hv
    | false => exact hv

theorem Members.apart (members : Members) (first : Bool) {rest : List Tok} (hrest : Apart rest)
    (hnext : PunctNext rest) : Apart (members.tokens first ++ rest) := by
  cases members with
  | nil => exact hrest
  | cons key v members =>
    have htail := members.apart false hrest hnext
    have hv := v.apart htail (members.punctNext.append hnext)
    have hkey : Apart
        (.str key :: .punct .colon :: (v.tokens ++ (members.tokens false ++ rest))) :=
      ⟨punctNext_cons _ _, hv⟩
    rw [Members.tokens, List.append_assoc, List.cons_append, List.cons_append, List.append_assoc]
    cases first with
    | true => exact hkey
    | false => exact hkey

end

theorem Value.apart_tokens (v : Value) : Apart v.tokens := by
  have h := @Value.apart v [] trivial (by simp [PunctNext])
  rwa [List.append_nil] at h

theorem Value.separated_tokens (v : Value) : Separated v.tokens := v.apart_tokens.separated

/-! ## Searching for a quoted word -/

/-- What follows each match of a pattern; matches do not overlap. -/
def matchRestsFrom (pat : List Char) : ℕ → List Char → List (List Char)
  | _, [] => []
  | skip + 1, _ :: s => matchRestsFrom pat skip s
  | 0, c :: s =>
    if pat.isPrefixOf (c :: s) then (c :: s).drop pat.length :: matchRestsFrom pat (pat.length - 1) s
    else matchRestsFrom pat 0 s

/-- What follows each place where the pattern is found. -/
def matchRests (pat s : List Char) : List (List Char) := matchRestsFrom pat 0 s

/-- A word in quotes. -/
def quoted (word : List Char) : List Char := '"' :: (word ++ ['"'])

/-- A word of letters that stand for themselves and do not begin with white space or punctuation. -/
structure IsQuotable (word : List Char) : Prop where
  nonempty : word ≠ []
  plain : ∀ c ∈ word, isPlain c
  head : ∀ c ∈ word.head?, c.isLower

/-- The string is this word, as it is. -/
def isWord (word : List Char) (s : Raw) : Bool := rawText s = word

/-- A string ends with an escaped quote and a word. -/
def endsQuoted (word : List Char) : Raw → Bool
  | [] => false
  | .escape .quote :: s => isWord word s || endsQuoted word s
  | _ :: s => endsQuoted word s

/-- A string in which a search for a quoted word finds it. -/
def shows (word : List Char) (s : Raw) : Bool := isWord word s || endsQuoted word s

/-- The token is a string with the word in its text. -/
def Tok.shows (word : List Char) : Tok → Bool
  | .str s => JsonText.shows word s
  | _ => false

variable {word : List Char}

theorem matchRestsFrom_skip (pat a s : List Char) :
    matchRestsFrom pat a.length (a ++ s) = matchRestsFrom pat 0 s := by
  induction a with
  | nil => rfl
  | cons c a ih => exact ih

theorem matchRests_of_ne {c : Char} (hc : c ≠ '"') (s : List Char) :
    matchRests (quoted word) (c :: s) = matchRests (quoted word) s := by
  rw [matchRests, matchRestsFrom, if_neg]
  · rfl
  · simp [quoted, Ne.symm hc]

theorem matchRests_append_of_forall_ne {a : List Char} (ha : ∀ c ∈ a, c ≠ '"') (s : List Char) :
    matchRests (quoted word) (a ++ s) = matchRests (quoted word) s := by
  induction a with
  | nil => rfl
  | cons c a ih =>
    rw [List.cons_append, matchRests_of_ne (ha c List.mem_cons_self),
      ih fun c' hc' => ha c' (List.mem_cons_of_mem _ hc')]

/-- At a quote: the word is found when it follows. -/
theorem matchRests_quote_word (s : List Char) :
    matchRests (quoted word) ('"' :: (word ++ '"' :: s)) = s :: matchRests (quoted word) s := by
  have htext : '"' :: (word ++ '"' :: s) = quoted word ++ s := by simp [quoted]
  have hprefix : (quoted word).isPrefixOf ('"' :: (word ++ '"' :: s)) := by
    rw [htext]
    simp
  rw [matchRests, matchRestsFrom, if_pos hprefix, htext, List.drop_left]
  congr 1
  have hskip := matchRestsFrom_skip (quoted word) (word ++ ['"']) s
  rw [List.append_assoc] at hskip
  simpa [quoted, matchRests] using hskip

theorem matchRests_quote_of_other {s : List Char} (h : ¬ word ++ ['"'] <+: s) :
    matchRests (quoted word) ('"' :: s) = matchRests (quoted word) s := by
  rw [matchRests, matchRestsFrom, if_neg]
  · rfl
  · rw [List.isPrefixOf_iff_prefix, quoted, List.cons_prefix_cons]
    exact fun hp => h hp.2

theorem isPlain_iff {c : Char} : isPlain c ↔ c ≠ '"' ∧ c ≠ '\\' ∧ 0x20 ≤ c.toNat := by
  simp [isPlain, and_assoc]

/-- A string shows a word and a quote at its beginning only when it is the word: the first quote on
the page that no backslash stands before is the one that ends the string. -/
theorem rawText_begins_iff (hword : ∀ c ∈ word, isPlain c) (s : Raw) (rest : List Char) :
    word ++ ['"'] <+: rawText s ++ '"' :: rest ↔ rawText s = word := by
  induction s generalizing word with
  | nil =>
    cases word with
    | nil => simp [rawText]
    | cons c word =>
      have hc := (isPlain_iff.1 (hword c List.mem_cons_self)).1
      simp [rawText, hc]
  | cons r s ih =>
    cases word with
    | nil =>
      cases r with
      | plain c hc => simp [rawText, RawChar.text, Ne.symm (isPlain_iff.1 hc).1]
      | escape e => simp [rawText, RawChar.text]
      | unicode a b c d => simp [rawText, RawChar.text]
    | cons c word =>
      have hc := (isPlain_iff.1 (hword c List.mem_cons_self)).2.1
      have hih := ih fun c' hc' => hword c' (List.mem_cons_of_mem _ hc')
      rw [rawText] at hih
      cases r with
      | plain c' hc' =>
        simp only [rawText, RawChar.text, List.flatMap_cons, List.cons_append, List.nil_append,
          List.cons_prefix_cons, hih, List.cons.injEq, eq_comm]
      | escape e => simp [rawText, RawChar.text, hc, Ne.symm hc]
      | unicode a b c d => simp [rawText, RawChar.text, hc, Ne.symm hc]

theorem ne_quote_of_isHexDigit {c : Char} (h : isHexDigit c) : c ≠ '"' := by
  rintro rfl
  revert h
  decide

theorem Escape.letter_ne_quote {e : Escape} (he : e ≠ .quote) : e.letter ≠ '"' := by
  cases e <;> simp_all [Escape.letter]

/-- At a quote before the rest of a string: the word is found there when the rest is the word. -/
theorem matchRests_quote_rawText (hword : ∀ c ∈ word, isPlain c) {s : Raw} {rest : List Char}
    (hs : matchRests (quoted word) (rawText s ++ '"' :: rest) =
      (if endsQuoted word s then [rest] else []) ++ matchRests (quoted word) rest) :
    matchRests (quoted word) ('"' :: (rawText s ++ '"' :: rest)) =
      (if shows word s then [rest] else []) ++ matchRests (quoted word) rest := by
  by_cases hw : rawText s = word
  · rw [hw, matchRests_quote_word, shows, isWord, if_pos (by simp [hw])]
    rfl
  · rw [matchRests_quote_of_other fun hp => hw ((rawText_begins_iff hword s rest).1 hp), hs,
      shows,
      isWord]
    simp [hw]

/-- Within a string the word is found after an escaped quote. -/
theorem matchRests_rawText (hword : ∀ c ∈ word, isPlain c) (s : Raw) {rest : List Char}
    (hrest : ¬ word ++ ['"'] <+: rest) :
    matchRests (quoted word) (rawText s ++ '"' :: rest) =
      (if endsQuoted word s then [rest] else []) ++ matchRests (quoted word) rest := by
  induction s with
  | nil => exact matchRests_quote_of_other hrest
  | cons r s ih =>
    rw [rawText, List.flatMap_cons, List.append_assoc]
    cases r with
    | plain c hc =>
      rw [matchRests_append_of_forall_ne (by simpa [RawChar.text] using (isPlain_iff.1 hc).1)]
      exact ih
    | escape e =>
      by_cases he : e = .quote
      · subst he
        refine (matchRests_of_ne (by decide) _).trans ?_
        exact matchRests_quote_rawText hword ih
      · rw [matchRests_append_of_forall_ne (by simpa [RawChar.text] using Escape.letter_ne_quote he)]
        cases e with
        | quote => exact absurd rfl he
        | _ => exact ih
    | unicode a b c d =>
      rw [matchRests_append_of_forall_ne (by
        simp [RawChar.text, ne_quote_of_isHexDigit a.2, ne_quote_of_isHexDigit b.2,
          ne_quote_of_isHexDigit c.2, ne_quote_of_isHexDigit d.2])]
      exact ih

/-- After a string the page goes on with white space or punctuation. -/
theorem not_isPrefix_render (hword : IsQuotable word) {ts : List Tok} (hts : PunctNext ts)
    (ws : ℕ → Ws) :
    ¬ word ++ ['"'] <+: render ts ws := by
  obtain ⟨c, word, rfl⟩ := List.exists_cons_of_ne_nil hword.nonempty
  have hc : c.isLower := hword.head c rfl
  have hspace : ∀ c' ∈ (ws 0).chars, c ≠ c' := by
    rintro c' hc' rfl
    have := (ws 0).ok c hc'
    revert hc
    simp only [List.mem_cons, List.not_mem_nil, or_false] at this
    rcases this with rfl | rfl | rfl | rfl <;> decide
  intro hp
  cases hws : (ws 0).chars with
  | cons c' chars =>
    have hne := hspace c' (by simp [hws])
    cases ts <;> simp_all [render]
  | nil =>
    cases ts with
    | nil => simp [render, hws] at hp
    | cons t ts =>
      obtain ⟨p, rfl⟩ := hts t rfl
      have hp' : c = p.char := by
        simp only [render, hws, List.nil_append, Tok.text, List.cons_append,
          List.cons_prefix_cons] at hp
        exact hp.1
      rw [hp'] at hc
      revert hc
      cases p <;> decide

/-! ## What is found in a text -/

/-- The tokens after each token that shows a word. -/
def after (word : List Char) : List Tok → List (List Tok)
  | [] => []
  | t :: ts => (if t.shows word then [ts] else []) ++ after word ts

theorem Ws.ne_quote (w : Ws) : ∀ c ∈ w.chars, c ≠ '"' := by
  rintro c hc rfl
  exact absurd (w.ok _ hc) (by decide)

theorem Number.ne_quote (n : Number) : ∀ c ∈ n.chars, c ≠ '"' := by
  rintro c hc rfl
  exact absurd (n.ok _ hc) (by decide)

/-- Quotes stand around strings and nowhere else. -/
theorem Tok.ne_quote {t : Tok} (ht : ∀ s, t ≠ .str s) : ∀ c ∈ t.text, c ≠ '"' := by
  cases t with
  | punct p => cases p <;> simp [Tok.text, Punct.char]
  | str s => exact absurd rfl (ht s)
  | number n => exact n.ne_quote
  | bool b => cases b <;> simp [Tok.text]
  | null => simp [Tok.text]

/-- A search for a quoted word, read off by what looks no further than the tokens that follow. -/
theorem matchRests_render {β : Type*} (hword : IsQuotable word) {f : List Char → β}
    {g : List Tok → β}
    (hf : ∀ ts ws, f (render ts ws) = g ts) (ts : List Tok) (hts : Separated ts) (ws : ℕ → Ws) :
    (matchRests (quoted word) (render ts ws)).map f = (after word ts).map g := by
  induction ts generalizing ws with
  | nil =>
    rw [render, ← List.append_nil (ws 0).chars, matchRests_append_of_forall_ne (ws 0).ne_quote]
    rfl
  | cons t ts ih =>
    rw [render, matchRests_append_of_forall_ne (ws 0).ne_quote]
    by_cases hstr : ∃ s, t = .str s
    · obtain ⟨s, rfl⟩ := hstr
      obtain ⟨hnext, hts⟩ := hts
      have htail := matchRests_quote_rawText hword.plain
        (matchRests_rawText hword.plain s (not_isPrefix_render hword hnext fun i => ws (i + 1)))
      rw [Tok.text, List.cons_append, List.cons_append, List.append_assoc, List.cons_append,
        List.nil_append, htail, List.map_append, ih hts, after, List.map_append, Tok.shows]
      split <;> simp [hf]
    · have hne : ∀ s, t ≠ .str s := fun s h => hstr ⟨s, h⟩
      have hts : Separated ts := by
        cases t with
        | str s => exact absurd rfl (hne s)
        | _ => exact hts
      have hshows : t.shows word = false := by
        cases t with
        | str s => exact absurd rfl (hne s)
        | _ => rfl
      rw [matchRests_append_of_forall_ne (Tok.ne_quote hne), ih hts, after, hshows]
      rfl

/-! ## The strings of a value -/

mutual

/-- The strings of a value in the order they are written, the name of a member with the member's
value. -/
def Value.strings : Value → List (Raw × Option Value)
  | .null => []
  | .bool _ => []
  | .number _ => []
  | .str s => [(s, none)]
  | .arr items => items.strings
  | .obj members => members.strings

/-- The strings of the items. -/
def Items.strings : Items → List (Raw × Option Value)
  | .nil => []
  | .cons v items => v.strings ++ items.strings

/-- The keys with their values, and the strings of these. -/
def Members.strings : Members → List (Raw × Option Value)
  | .nil => []
  | .cons key v members => (key, some v) :: (v.strings ++ members.strings)

end

/-- The token a value begins with. -/
def Value.first : Value → Tok
  | .null => .null
  | .bool b => .bool b
  | .number n => .number n
  | .str s => .str s
  | .arr _ => .punct .bracketOpen
  | .obj _ => .punct .braceOpen

/-- The token after a colon. -/
def named : List Tok → Option Tok
  | .punct .colon :: t :: _ => some t
  | _ => none

/-- Tokens that do not begin with a colon: what follows a value. -/
def NoColonNext (ts : List Tok) : Prop := ∀ t ∈ ts.head?, t ≠ .punct .colon

theorem NoColonNext.named_eq_none {ts : List Tok} (h : NoColonNext ts) : named ts = none := by
  unfold named
  split
  · exact absurd rfl (h _ rfl)
  · rfl

theorem noColonNext_cons {t : Tok} (ht : t ≠ .punct .colon) (ts : List Tok) :
    NoColonNext (t :: ts) := by
  intro t' ht'
  rwa [show t' = t by simpa using ht'.symm]

theorem Items.noColonNext (items : Items) {rest : List Tok} (hrest : NoColonNext rest) :
    NoColonNext (items.tokens false ++ rest) := by
  cases items with
  | nil => exact hrest
  | cons v items => exact noColonNext_cons (by simp) _

theorem Members.noColonNext (members : Members) {rest : List Tok} (hrest : NoColonNext rest) :
    NoColonNext (members.tokens false ++ rest) := by
  cases members with
  | nil => exact hrest
  | cons key v members => exact noColonNext_cons (by simp) _

theorem Value.exists_tokens (v : Value) : ∃ ts, v.tokens = v.first :: ts := by
  cases v <;> exact ⟨_, rfl⟩

/-- What a search finds among strings: the first token of the value that each string it finds names.
-/
def foundNames (word : List Char) (l : List (Raw × Option Value)) : List (Option Tok) :=
  (l.filter fun p => shows word p.1).map fun p => p.2.map Value.first

theorem foundNames_append (l l' : List (Raw × Option Value)) :
    foundNames word (l ++ l') = foundNames word l ++ foundNames word l' := by
  simp [foundNames]

theorem map_named_after_cons (t : Tok) (ts : List Tok) (h : ∀ s, t ≠ .str s) :
    (after word (t :: ts)).map named = (after word ts).map named := by
  cases t with
  | str s => exact absurd rfl (h s)
  | _ => rfl

theorem map_named_after_str (s : Raw) (ts : List Tok) :
    (after word (.str s :: ts)).map named =
      (if shows word s then [named ts] else []) ++ (after word ts).map named := by
  rw [after, List.map_append, Tok.shows]
  split <;> rfl

mutual

theorem Value.map_named_after (v : Value) {rest : List Tok} (hrest : NoColonNext rest) :
    (after word (v.tokens ++ rest)).map named =
      foundNames word v.strings ++ (after word rest).map named := by
  cases v with
  | null => rfl
  | bool b => rfl
  | number n => rfl
  | str s =>
    rw [Value.tokens, List.singleton_append, map_named_after_str, hrest.named_eq_none, Value.strings]
    by_cases hs : shows word s <;> simp [foundNames, hs]
  | arr items =>
    have hclose := noColonNext_cons (t := .punct .bracketClose) (by simp) rest
    rw [Value.tokens, List.cons_append, List.append_assoc, map_named_after_cons _ _ (by simp)]
    exact items.map_named_after true hclose
  | obj members =>
    have hclose := noColonNext_cons (t := .punct .braceClose) (by simp) rest
    rw [Value.tokens, List.cons_append, List.append_assoc, map_named_after_cons _ _ (by simp)]
    exact members.map_named_after true hclose

theorem Items.map_named_after (items : Items) (first : Bool) {rest : List Tok}
    (hrest : NoColonNext rest) :
    (after word (items.tokens first ++ rest)).map named =
      foundNames word items.strings ++ (after word rest).map named := by
  cases items with
  | nil => rfl
  | cons v items =>
    have hv := v.map_named_after (items.noColonNext hrest)
    rw [items.map_named_after false hrest] at hv
    rw [Items.tokens, List.append_assoc, List.append_assoc, Items.strings, foundNames_append,
      List.append_assoc, ← hv]
    cases first <;> rfl

theorem Members.map_named_after (members : Members) (first : Bool) {rest : List Tok}
    (hrest : NoColonNext rest) :
    (after word (members.tokens first ++ rest)).map named =
      foundNames word members.strings ++ (after word rest).map named := by
  cases members with
  | nil => rfl
  | cons key v members =>
    have hv := v.map_named_after (members.noColonNext hrest)
    rw [members.map_named_after false hrest] at hv
    obtain ⟨ts, hts⟩ := v.exists_tokens
    have hkey : (after word
        (.str key :: .punct .colon :: (v.tokens ++ (members.tokens false ++ rest)))).map named =
        foundNames word ((key, some v) :: (v.strings ++ members.strings)) ++
          (after word rest).map named := by
      rw [map_named_after_str, map_named_after_cons _ _ (by simp), hv, hts, List.cons_append, named]
      by_cases hs : shows word key <;> simp [foundNames, hs]
    rw [Members.tokens, List.append_assoc, List.cons_append, List.cons_append, List.append_assoc,
      Members.strings, ← hkey]
    cases first <;> rfl

end

/-- A search for a quoted word in the text of a value, read off by what looks at the value that is
named. -/
theorem matchRests_value {β : Type*} (hword : IsQuotable word) {f : List Char → β}
    {g : Option Tok → β}
    (hf : ∀ ts ws, f (render ts ws) = g (named ts)) (v : Value) (ws : ℕ → Ws) :
    (matchRests (quoted word) (render v.tokens ws)).map f = (foundNames word v.strings).map g := by
  have hafter := @Value.map_named_after word v [] (by simp [NoColonNext])
  rw [List.append_nil, after, List.map_nil, List.append_nil] at hafter
  rw [matchRests_render hword (g := fun ts => g (named ts)) hf _ v.separated_tokens, ← hafter,
    List.map_map]
  rfl

/-! ## Reading a member -/

/-- What stands after a colon, with white space on either side of the colon. -/
def afterColon (s : List Char) : Option (List Char) :=
  (stripChar ':' (trimStart s)).map trimStart

theorem Ws.isWhiteSpace (w : Ws) : ∀ c ∈ w.chars, Text.isWhiteSpace c := by
  intro c hc
  have := w.ok c hc
  simp only [List.mem_cons, List.not_mem_nil, or_false] at this
  rcases this with rfl | rfl | rfl | rfl <;> decide

theorem Number.exists_chars (n : Number) : ∃ c s, n.chars = c :: s ∧ (c.isDigit ∨ c = '-') := by
  obtain ⟨c, s, hs⟩ := List.exists_cons_of_ne_nil n.nonempty
  exact ⟨c, s, hs, by simpa [hs] using n.head⟩

/-- A token begins with a character that is no white space. -/
theorem Tok.exists_text (t : Tok) : ∃ c s, t.text = c :: s ∧ Text.isWhiteSpace c = false := by
  cases t with
  | punct p => exact ⟨p.char, [], rfl, by cases p <;> decide⟩
  | str s => exact ⟨'"', rawText s ++ ['"'], rfl, by decide⟩
  | number n =>
    obtain ⟨c, s, hs, hc⟩ := n.exists_chars
    refine ⟨c, s, hs, ?_⟩
    rcases hc with hc | rfl
    · exact not_isWhiteSpace_of_isDigit hc
    · decide
  | bool b => cases b <;> exact ⟨_, _, rfl, by decide⟩
  | null => exact ⟨_, _, rfl, by decide⟩

/-- No other token begins with a colon. -/
theorem Tok.stripChar_colon {t : Tok} (ht : t ≠ .punct .colon) (rest : List Char) :
    stripChar ':' (t.text ++ rest) = none := by
  cases t with
  | punct p =>
    cases p with
    | colon => exact absurd rfl ht
    | _ => rfl
  | str s => rfl
  | number n =>
    obtain ⟨c, s, hs, hc⟩ := n.exists_chars
    have hne : c ≠ ':' := by
      rintro rfl
      exact absurd hc (by decide)
    simp [Tok.text, hs, stripChar, hne]
  | bool b => cases b <;> rfl
  | null => rfl

theorem trimStart_render_nil (ws : ℕ → Ws) : trimStart (render [] ws) = [] := by
  simpa [trimStart, render] using (ws 0).isWhiteSpace

theorem trimStart_render_cons (t : Tok) (ts : List Tok) (ws : ℕ → Ws) :
    trimStart (render (t :: ts) ws) = t.text ++ render ts fun i => ws (i + 1) := by
  obtain ⟨c, s, hs, hc⟩ := t.exists_text
  rw [trimStart, render, List.dropWhile_append_of_pos (ws 0).isWhiteSpace, hs, List.cons_append,
    List.dropWhile_cons_of_neg (by simp [hc])]

/-- Reading the value of a member from what follows its name, by what looks no further than the
first token. -/
theorem elim_afterColon_render {β : Type*} {b : β} {f : List Char → β} {g : Tok → β}
    (hnil : f [] = b)
    (hf : ∀ t rest, f (t.text ++ rest) = g t) (ts : List Tok) (ws : ℕ → Ws) :
    (afterColon (render ts ws)).elim b f = (named ts).elim b g := by
  cases ts with
  | nil =>
    rw [afterColon, trimStart_render_nil]
    rfl
  | cons t ts =>
    rw [afterColon, trimStart_render_cons]
    by_cases ht : t = .punct .colon
    · subst ht
      have hcolon : stripChar ':' ((Tok.punct .colon).text ++ render ts fun i => ws (i + 1)) =
          some (render ts fun i => ws (i + 1)) := rfl
      rw [hcolon, Option.map_some, Option.elim_some]
      cases ts with
      | nil => exact (congrArg f (trimStart_render_nil _)).trans hnil
      | cons t ts => exact (congrArg f (trimStart_render_cons t ts _)).trans (hf t _)
    · rw [Tok.stripChar_colon ht, (noColonNext_cons ht ts).named_eq_none]
      rfl

end OCF.JsonText
