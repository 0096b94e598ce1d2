import OCF.Foundations.Text
import Mathlib.Tactic.Common

/-!
# XML texts

A text is read character by character, as XML processors do it: `step` says what a character does in
each place of a document, and `read` gives the start tags with their attributes, the end tags and
the characters between them. References are replaced by what they stand for, in content and in
attribute values. A document whose tags do not match is not read; comments, processing instructions
and declarations are not either.

What is escaped is read back as it was, in content (`Reads.escape_content`) and in an attribute value
between quotes (`Reads.escape_value`): no character of it ends the content or the value. Which
characters an XML document may have at all is not looked at, and white space in attribute values is
left as it is.
-/

namespace OCF.Xml

open OCF.Text

/-! ## References -/

/-- The predefined entities. -/
def entities : List (Char × List Char) :=
  [('&', "amp".toList), ('<', "lt".toList), ('>', "gt".toList), ('"', "quot".toList),
    ('\'', "apos".toList)]

/-- The value of a digit, in any base up to sixteen. -/
def digitValue (c : Char) : ℕ :=
  if c.isDigit then c.toNat - 48
  else if 'a' ≤ c ∧ c ≤ 'f' then c.toNat - 87
  else if 'A' ≤ c ∧ c ≤ 'F' then c.toNat - 55
  else 16

/-- The character with a number that is written in some base. -/
def numbered (base : ℕ) (digits : List Char) : Option Char :=
  let n := digits.foldl (fun n c => n * base + digitValue c) 0
  if digits ≠ [] ∧ digits.all (fun c => digitValue c < base) ∧ n.isValidChar then
    some (Char.ofNat n)
  else none

/-- What a reference stands for, given what is between the ampersand and the semicolon. -/
def reference : List Char → Option Char
  | '#' :: 'x' :: digits => numbered 16 digits
  | '#' :: digits => numbered 10 digits
  | name => (entities.find? fun e => e.2 = name).map Prod.fst

/-- Read one character of a text with references. The state is what has been read of a reference. -/
def feed : Option (List Char) → Char → Option (Option (List Char) × List Char)
  | none, c => if c = '&' then some (some [], []) else some (none, [c])
  | some body, c =>
    if c = ';' then (reference body).map fun c => (none, [c]) else some (some (body ++ [c]), [])

/-- Read a text with references, inside a reference that was begun or not. -/
def unescapeFrom : Option (List Char) → List Char → Option (List Char)
  | ref, [] => if ref = none then some [] else none
  | ref, c :: s => (feed ref c).bind fun r => (unescapeFrom r.1 s).map fun t => r.2 ++ t

/-- Replace the references in a text. -/
def unescape (s : List Char) : Option (List Char) := unescapeFrom none s

/-- A character, or the reference that stands for it. -/
def escapeChar (c : Char) : List Char :=
  match entities.find? fun e => e.1 = c with
  | some e => '&' :: (e.2 ++ [';'])
  | none => [c]

/-- Replace the characters that have an entity, one by one. -/
def escape (s : List Char) : List Char := s.flatMap escapeChar

/-- A character is one of the five, or it stands for itself. -/
theorem escapeChar_cases (c : Char) :
    (∃ e ∈ entities, c = e.1 ∧ escapeChar c = '&' :: (e.2 ++ [';'])) ∨
    escapeChar c = [c] ∧ ∀ e ∈ entities, c ≠ e.1 := by
  unfold escapeChar
  cases h : entities.find? fun e => e.1 = c with
  | some e =>
    have hc : e.1 = c := by simpa using List.find?_some h
    exact .inl ⟨e, List.mem_of_find?_eq_some h, hc.symm, rfl⟩
  | none =>
    refine .inr ⟨rfl, fun e he => ?_⟩
    have hne := List.find?_eq_none.1 h e he
    simpa [eq_comm] using hne

/-- No angle bracket and no quote is left. -/
theorem ne_of_mem_escape {s : List Char} {c : Char} (h : c ∈ escape s) :
    c ≠ '<' ∧ c ≠ '>' ∧ c ≠ '"' ∧ c ≠ '\'' := by
  obtain ⟨a, -, hc⟩ := List.mem_flatMap.1 h
  rcases escapeChar_cases a with ⟨e, he, -, heq⟩ | ⟨heq, hne⟩
  · have hplain : ∀ c ∈ '&' :: (e.2 ++ [';']), c ≠ '<' ∧ c ≠ '>' ∧ c ≠ '"' ∧ c ≠ '\'' := by
      simp only [entities, List.mem_cons, List.not_mem_nil, or_false] at he
      rcases he with rfl | rfl | rfl | rfl | rfl <;> exact forall_mem_of_all (by decide)
    exact hplain c (heq ▸ hc)
  · rw [heq, List.mem_singleton] at hc
    subst hc
    simp only [entities, List.mem_cons, List.not_mem_nil, or_false, forall_eq_or_imp,
      forall_eq] at hne
    exact ⟨hne.2.1, hne.2.2.1, hne.2.2.2.1, hne.2.2.2.2⟩

theorem feed_amp : feed none '&' = some (some [], []) := rfl

theorem feed_of_ne {c : Char} (h : c ≠ '&') : feed none c = some (none, [c]) := if_neg h

/-- An entity is read as its character; nothing in its name ends it or begins markup. -/
theorem reference_of_mem_entities {e : Char × List Char} (he : e ∈ entities) :
    reference e.2 = some e.1 ∧ ∀ c ∈ e.2, c ≠ ';' ∧ c ≠ '<' := by
  simp only [entities, List.mem_cons, List.not_mem_nil, or_false] at he
  rcases he with rfl | rfl | rfl | rfl | rfl <;> exact ⟨rfl, forall_mem_of_all (by decide)⟩

theorem feed_reference {body : List Char} {c : Char} (h : reference body = some c) :
    feed (some body) ';' = some (none, [c]) := by
  rw [feed, if_pos rfl, h, Option.map_some]

theorem feed_name {c : Char} (h : c ≠ ';') (body : List Char) :
    feed (some body) c = some (some (body ++ [c]), []) := if_neg h

/-- A reference is replaced by what it stands for. -/
theorem unescapeFrom_reference {name : List Char} (hname : ∀ c ∈ name, c ≠ ';') (body : List Char)
    {c : Char} (h : reference (body ++ name) = some c) (s : List Char) :
    unescapeFrom (some body) (name ++ ';' :: s) = (unescapeFrom none s).map fun t => c :: t := by
  induction name generalizing body with
  | nil =>
    rw [List.append_nil] at h
    rw [List.nil_append, unescapeFrom, feed_reference h]
    rfl
  | cons a name ih =>
    obtain ⟨ha, hname⟩ := List.forall_mem_cons.1 hname
    rw [List.append_cons] at h
    have hrest := ih hname (body ++ [a]) h
    rw [List.cons_append, unescapeFrom, feed_name ha, Option.bind_some, hrest, Option.map_map]
    rfl

/-- An escaped character is replaced by the character. -/
theorem unescapeFrom_escapeChar (c : Char) (s : List Char) :
    unescapeFrom none (escapeChar c ++ s) = (unescapeFrom none s).map fun t => c :: t := by
  rcases escapeChar_cases c with ⟨e, he, rfl, heq⟩ | ⟨heq, hne⟩
  · obtain ⟨href, hplain⟩ := reference_of_mem_entities he
    have hname := unescapeFrom_reference (fun c hc => (hplain c hc).1) [] href s
    rw [heq, List.cons_append, List.append_assoc, List.singleton_append, unescapeFrom, feed_amp,
      Option.bind_some, hname, Option.map_map]
    rfl
  · have hamp : c ≠ '&' := hne ('&', "amp".toList) (by simp [entities])
    rw [heq, List.singleton_append, unescapeFrom, feed_of_ne hamp]
    rfl

/-- **Escaped texts are read back.** -/
theorem unescape_escape (s : List Char) : unescape (escape s) = some s := by
  rw [unescape, escape]
  induction s with
  | nil => rfl
  | cons c s ih => rw [List.flatMap_cons, unescapeFrom_escapeChar, ih, Option.map_some]

/-! ## Documents -/

/-- The white space of XML. -/
def isSpace (c : Char) : Bool := c ∈ [' ', '\t', '\n', '\r']

/-- A character that begins a name; all beyond ASCII are taken for letters. -/
def isNameStart (c : Char) : Bool := c.isAlpha || c = '_' || c = ':' || 0x80 ≤ c.toNat

/-- A character that a name can go on with. -/
def isNameChar (c : Char) : Bool := isNameStart c || c.isDigit || c = '-' || c = '.'

/-- The name of an element or an attribute. -/
abbrev Name := List Char

/-- The attributes of a tag, in the order they are written. -/
abbrev Attrs := List (Name × List Char)

/-- What is read off a document. -/
inductive Event
  | start (name : Name) (attrs : Attrs)
  | finish (name : Name)
  | char (c : Char)
  deriving DecidableEq

/-- Where in a document the reader is. -/
inductive Place
  /-- Between tags, with what has been read of a reference. -/
  | content (ref : Option (List Char))
  /-- After an angle bracket. -/
  | markup
  | startName (name : Name)
  /-- Within a start tag, after white space. -/
  | tag (name : Name) (attrs : Attrs)
  | attrName (name : Name) (attrs : Attrs) (attr : Name)
  /-- After the name of an attribute. -/
  | equals (name : Name) (attrs : Attrs) (attr : Name)
  | beforeValue (name : Name) (attrs : Attrs) (attr : Name)
  | value (name : Name) (attrs : Attrs) (attr : Name) (quote : Char) (value : List Char)
      (ref : Option (List Char))
  | afterValue (name : Name) (attrs : Attrs)
  /-- After the slash of an empty element. -/
  | slash (name : Name) (attrs : Attrs)
  | endName (name : Name)
  | afterEnd (name : Name)
  deriving DecidableEq

/-- What ends a start tag or goes on with it. -/
def closeTag (name : Name) (attrs : Attrs) (c : Char) : Option (Place × List Event) :=
  if c = '>' then some (.content none, [.start name attrs])
  else if c = '/' then some (.slash name attrs, [])
  else if isSpace c then some (.tag name attrs, [])
  else none

/-- Read a character of a document. -/
def step : Place → Char → Option (Place × List Event)
  | .content ref, c =>
    if c = '<' ∧ ref = none then some (.markup, [])
    else (feed ref c).map fun r => (.content r.1, r.2.map .char)
  | .markup, c =>
    if c = '/' then some (.endName [], [])
    else if isNameStart c then some (.startName [c], [])
    else none
  | .startName name, c =>
    if isNameChar c then some (.startName (name ++ [c]), []) else closeTag name [] c
  | .tag name attrs, c =>
    if isNameStart c then some (.attrName name attrs [c], []) else closeTag name attrs c
  | .attrName name attrs attr, c =>
    if isNameChar c then some (.attrName name attrs (attr ++ [c]), [])
    else if c = '=' then some (.beforeValue name attrs attr, [])
    else if isSpace c then some (.equals name attrs attr, [])
    else none
  | .equals name attrs attr, c =>
    if c = '=' then some (.beforeValue name attrs attr, [])
    else if isSpace c then some (.equals name attrs attr, [])
    else none
  | .beforeValue name attrs attr, c =>
    if c = '"' ∨ c = '\'' then some (.value name attrs attr c [] none, [])
    else if isSpace c then some (.beforeValue name attrs attr, [])
    else none
  | .value name attrs attr quote value ref, c =>
    if c = quote ∧ ref = none then some (.afterValue name (attrs ++ [(attr, value)]), [])
    else if c = '<' then none
    else (feed ref c).map fun r => (.value name attrs attr quote (value ++ r.2) r.1, [])
  | .afterValue name attrs, c => closeTag name attrs c
  | .slash name attrs, c =>
    if c = '>' then some (.content none, [.start name attrs, .finish name]) else none
  | .endName name, c =>
    if isNameChar c then some (.endName (name ++ [c]), [])
    else if c = '>' then some (.content none, [.finish name])
    else if isSpace c then some (.afterEnd name, [])
    else none
  | .afterEnd name, c =>
    if c = '>' then some (.content none, [.finish name])
    else if isSpace c then some (.afterEnd name, [])
    else none

/-- Read characters from a place: the place afterwards, and what was met. -/
def run : Place → List Char → Option (Place × List Event)
  | p, [] => some (p, [])
  | p, c :: s => (step p c).bind fun r => (run r.1 s).map fun r' => (r'.1, r.2 ++ r'.2)

/-- Every end tag is that of the last element that is still open, and none stays open. -/
def nested : List Name → List Event → Bool
  | names, [] => names = []
  | names, .start name _ :: events => nested (name :: names) events
  | [], .finish _ :: _ => false
  | name' :: names, .finish name :: events => name' = name && nested names events
  | names, .char _ :: events => nested names events

/-- Read a document. -/
def read (s : List Char) : Option (List Event) :=
  (run (.content none) s).bind fun r =>
    if r.1 = .content none ∧ nested [] r.2 then some r.2 else none

/-- A tag without the values of its attributes. -/
inductive Tag
  | start (name : Name) (attrs : List Name)
  | finish (name : Name)
  deriving DecidableEq

/-- The tags of what is read: which elements begin and end, and which attributes they have. -/
def tags (events : List Event) : List Tag :=
  events.filterMap fun
    | .start name attrs => some (.start name (attrs.map Prod.fst))
    | .finish name => some (.finish name)
    | .char _ => none

/-! ## Reading in pieces -/

/-- From one place a text leads to another one, with these events. -/
def Reads (p : Place) (s : List Char) (p' : Place) (events : List Event) : Prop :=
  run p s = some (p', events)

namespace Reads

variable {p p' p'' : Place} {s s' : List Char} {events events' : List Event}

theorem nil (p : Place) : Reads p [] p [] := rfl

theorem cons {c : Char} (hc : step p c = some (p', events)) (hs : Reads p' s p'' events') :
    Reads p (c :: s) p'' (events ++ events') := by
  rw [Reads, run, hc, Option.bind_some, hs]
  rfl

theorem single {c : Char} (hc : step p c = some (p', events)) : Reads p [c] p' events := by
  have h := cons hc (nil p')
  rwa [List.append_nil] at h

theorem append (h : Reads p s p' events) (h' : Reads p' s' p'' events') :
    Reads p (s ++ s') p'' (events ++ events') := by
  induction s generalizing p events with
  | nil =>
    obtain ⟨rfl, rfl⟩ := Prod.mk.inj (Option.some.inj h)
    exact h'
  | cons c s ih =>
    rw [Reads, run, Option.bind_eq_some_iff] at h
    obtain ⟨r, hr, h⟩ := h
    obtain ⟨⟨q, evs⟩, hq, heq⟩ := Option.map_eq_some_iff.1 h
    obtain ⟨rfl, rfl⟩ := Prod.mk.inj heq
    have htail := cons hr (ih hq)
    rwa [← List.append_assoc] at htail

section

variable {place : Option (List Char) → Place} {name : List Char}

theorem entityName (hname : ∀ body, ∀ c ∈ name,
      step (place (some body)) c = some (place (some (body ++ [c])), [])) (body : List Char) :
    Reads (place (some body)) name (place (some (body ++ name))) [] := by
  induction name generalizing body with
  | nil =>
    rw [List.append_nil]
    exact nil _
  | cons c name ih =>
    have hc := hname body c List.mem_cons_self
    have hrest := ih (fun body c hc => hname body c (List.mem_cons_of_mem _ hc)) (body ++ [c])
    rw [← List.append_cons] at hrest
    exact cons hc hrest

/-- A reference is read wherever its characters are collected. -/
theorem reference (hamp : step (place none) '&' = some (place (some []), []))
    (hname : ∀ body, ∀ c ∈ name, step (place (some body)) c = some (place (some (body ++ [c])), []))
    (hend : step (place (some name)) ';' = some (p', events)) :
    Reads (place none) ('&' :: (name ++ [';'])) p' events :=
  cons hamp ((entityName hname []).append (single hend))

end

theorem escapeChar_content (c : Char) :
    Reads (.content none) (escapeChar c) (.content none) [.char c] := by
  rcases escapeChar_cases c with ⟨e, he, rfl, heq⟩ | ⟨heq, hne⟩
  · obtain ⟨href, hplain⟩ := reference_of_mem_entities he
    rw [heq]
    refine reference rfl (fun body c hc => ?_) ?_
    · simp [step, feed_name (hplain c hc).1]
    · simp [step, feed_reference href]
  · have hlt : c ≠ '<' := hne ('<', "lt".toList) (by simp [entities])
    have hamp : c ≠ '&' := hne ('&', "amp".toList) (by simp [entities])
    rw [heq]
    apply single
    simp [step, hlt, feed_of_ne hamp]

/-- **In content** an escaped text is read as its characters. -/
theorem escape_content (s : List Char) :
    Reads (.content none) (escape s) (.content none) (s.map .char) := by
  induction s with
  | nil => exact nil _
  | cons c s ih => exact (escapeChar_content c).append ih

variable {name attr : Name} {attrs : Attrs} {quote : Char}

theorem escapeChar_value (hquote : quote = '"' ∨ quote = '\'') (c : Char) (value : List Char) :
    Reads (.value name attrs attr quote value none) (escapeChar c)
      (.value name attrs attr quote (value ++ [c]) none) [] := by
  rcases escapeChar_cases c with ⟨e, he, rfl, heq⟩ | ⟨heq, hne⟩
  · obtain ⟨href, hplain⟩ := reference_of_mem_entities he
    have hamp : '&' ≠ quote := by
      rcases hquote with rfl | rfl <;> decide
    rw [heq]
    refine reference ?_ (fun body c hc => ?_) ?_
    · simp [step, hamp, feed_amp]
    · simp [step, (hplain c hc).2, feed_name (hplain c hc).1]
    · simp [step, feed_reference href]
  · have hlt : c ≠ '<' := hne ('<', "lt".toList) (by simp [entities])
    have hamp : c ≠ '&' := hne ('&', "amp".toList) (by simp [entities])
    have hc : c ≠ quote := by
      rcases hquote with rfl | rfl
      · exact hne ('"', "quot".toList) (by simp [entities])
      · exact hne ('\'', "apos".toList) (by simp [entities])
    rw [heq]
    apply single
    simp [step, hlt, hc, feed_of_ne hamp]

/-- **In an attribute value** an escaped text is read as that value. -/
theorem escape_value (hquote : quote = '"' ∨ quote = '\'') (s value : List Char) :
    Reads (.value name attrs attr quote value none) (escape s)
      (.value name attrs attr quote (value ++ s) none) [] := by
  induction s generalizing value with
  | nil =>
    rw [List.append_nil]
    exact nil _
  | cons c s ih =>
    have h := (escapeChar_value hquote c value).append (ih (value ++ [c]))
    rwa [List.append_assoc] at h

/-- Digits are read as they are. -/
theorem digits_content {s : List Char} (hs : ∀ c ∈ s, c.isDigit) :
    Reads (.content none) s (.content none) (s.map .char) := by
  induction s with
  | nil => exact nil _
  | cons c s ih =>
    have hc := hs c List.mem_cons_self
    have hne : c ≠ '<' ∧ c ≠ '&' := by
      constructor <;> rintro rfl <;> exact absurd hc (by decide)
    have hstep : step (.content none) c = some (.content none, [.char c]) := by
      simp [step, hne.1, feed_of_ne hne.2]
    exact cons hstep (ih fun c' hc' => hs c' (List.mem_cons_of_mem _ hc'))

end Reads

/-! ## Elements -/

/-- The events of an element, with those of its content. -/
def element (name : String) (attrs : List (String × String)) (inner : List Event) : List Event :=
  .start name.toList (attrs.map fun a => (a.1.toList, a.2.toList)) :: inner ++ [.finish name.toList]

/-- Character data. -/
def chars (s : String) : List Event := s.toList.map .char

/-- Events that open no element without closing it. -/
def Balanced (events : List Event) : Prop :=
  ∀ names rest, nested names (events ++ rest) = nested names rest

namespace Balanced

theorem nil : Balanced [] := fun _ _ => rfl

theorem append {events events' : List Event} (h : Balanced events) (h' : Balanced events') :
    Balanced (events ++ events') := by
  intro names rest
  rw [List.append_assoc, h, h']

theorem chars (s : String) : Balanced (chars s) := by
  intro names rest
  rw [Xml.chars]
  induction s.toList with
  | nil => rfl
  | cons c s ih => cases names <;> exact ih

theorem element (name : String) (attrs : List (String × String)) {inner : List Event}
    (h : Balanced inner) : Balanced (element name attrs inner) := by
  intro names rest
  rw [Xml.element, List.cons_append, List.cons_append, List.append_assoc, nested, h,
    List.singleton_append, nested]
  simp

theorem nested {events : List Event} (h : Balanced events) : nested [] events = true := by
  have hnil := h [] []
  rwa [List.append_nil] at hnil

end Balanced

theorem tags_nil : tags [] = [] := rfl

theorem tags_append (events events' : List Event) :
    tags (events ++ events') = tags events ++ tags events' := List.filterMap_append

theorem tags_chars (s : String) : tags (chars s) = [] := by
  rw [tags, chars, List.filterMap_map, List.filterMap_eq_nil_iff]
  exact fun c _ => rfl

theorem tags_element (name : String) (attrs : List (String × String)) (inner : List Event) :
    tags (element name attrs inner) =
      .start name.toList (attrs.map fun a => a.1.toList) :: tags inner ++ [.finish name.toList] := by
  rw [element, tags_append]
  simp [tags]

/-- What is read in pieces is read as a whole. -/
theorem Reads.read_eq {s : List Char} {events : List Event}
    (h : Reads (.content none) s (.content none) events) (hevents : Balanced events) :
    read s = some events := by
  rw [read, h, Option.bind_some, if_pos ⟨rfl, hevents.nested⟩]

end OCF.Xml
