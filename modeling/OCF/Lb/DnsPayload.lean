import OCF.Foundations.JsonReading
import OCF.Lb.DnsRecords

/-!
# The body of a DNS request

The body is put together from text, with the name and the value of the record escaped. `rawString`
is a string with these escapes as it stands in a JSON text: it stands for the string itself
(`decode_rawString`), and it is on the page what the provider writes (`rawText_rawString`). So the
body is an object with five members, whatever the name and the value are, and nothing else
(`recordJson_object`).
-/

namespace OCF.Lb

open OCF.JsonText OCF.Text

/-! ## Strings with their escapes -/

theorem isHexDigit_digitChar (n : Fin 16) : isHexDigit (Nat.digitChar n) := by
  revert n
  decide

/-- A digit of an escape. -/
def hexDigit (n : Fin 16) : HexDigit := ⟨Nat.digitChar n, isHexDigit_digitChar n⟩

theorem value_hexDigit (n : Fin 16) : (hexDigit n).value = n := by
  revert n
  decide

/-- A character as it is written in a string. -/
def rawChar (c : Char) : RawChar :=
  if h : isPlain c then .plain c h
  else if c = '"' then .escape .quote
  else if c = '\\' then .escape .backslash
  else if c = '\n' then .escape .lineFeed
  else if c = '\r' then .escape .carriageReturn
  else if c = '\t' then .escape .tab
  else .unicode (hexDigit 0) (hexDigit 0) (hexDigit (Fin.ofNat 16 (c.toNat / 16)))
    (hexDigit (Fin.ofNat 16 (c.toNat % 16)))

def rawString (s : String) : Raw := s.toList.map rawChar

/-- A character that is escaped is a quote, a backslash or a control character. -/
theorem lt_of_not_isPlain {c : Char} (h : ¬ isPlain c) (hquote : c ≠ '"') (hback : c ≠ '\\') :
    c.toNat < 0x20 := by
  by_contra hlt
  exact h (isPlain_iff.2 ⟨hquote, hback, by omega⟩)

/-- The escapes are those that the provider writes. -/
theorem text_rawChar (c : Char) : (rawChar c).text = jsonEscapeChar c := by
  unfold rawChar
  split_ifs with h hquote hback hlf hcr htab
  · obtain ⟨hquote, hback, hle⟩ := isPlain_iff.1 h
    have hlt : ¬ c.toNat < 0x20 := by omega
    have hlf : c ≠ '\n' := by
      rintro rfl
      exact hlt (by decide)
    have hcr : c ≠ '\r' := by
      rintro rfl
      exact hlt (by decide)
    have htab : c ≠ '\t' := by
      rintro rfl
      exact hlt (by decide)
    rw [jsonEscapeChar, if_neg hquote, if_neg hback, if_neg hlf, if_neg hcr, if_neg htab, if_neg hlt]
    rfl
  · subst hquote
    rfl
  · subst hback
    rfl
  · subst hlf
    rfl
  · subst hcr
    rfl
  · subst htab
    rfl
  · have hlt := lt_of_not_isPlain h hquote hback
    have hdiv : c.toNat / 16 % 16 = c.toNat / 16 := Nat.mod_eq_of_lt (by omega)
    rw [jsonEscapeChar, if_neg hquote, if_neg hback, if_neg hlf, if_neg hcr, if_neg htab, if_pos hlt]
    simp only [RawChar.text, hexDigit, Fin.val_ofNat, hdiv, Nat.mod_mod]
    rfl

/-- Every escape stands for the character it was written for. -/
theorem decode_rawChar_cons (c : Char) (s : Raw) : decode (rawChar c :: s) = c :: decode s := by
  unfold rawChar
  split_ifs with h hquote hback hlf hcr htab
  · simp [decode]
  · subst hquote
    simp [decode, Escape.char]
  · subst hback
    simp [decode, Escape.char]
  · subst hlf
    simp [decode, Escape.char]
  · subst hcr
    simp [decode, Escape.char]
  · subst htab
    simp [decode, Escape.char]
  · have hlt := lt_of_not_isPlain h hquote hback
    have hunit : codeUnit (hexDigit 0) (hexDigit 0) (hexDigit (Fin.ofNat 16 (c.toNat / 16)))
        (hexDigit (Fin.ofNat 16 (c.toNat % 16))) = c.toNat := by
      simp only [codeUnit, value_hexDigit, Fin.val_ofNat, Fin.val_zero]
      omega
    rw [decode_unicode_cons (by omega), hunit, Char.ofNat_toNat]

theorem decode_rawString (s : String) : decode (rawString s) = s.toList := by
  rw [rawString]
  induction s.toList with
  | nil => simp [decode]
  | cons c s ih => rw [List.map_cons, decode_rawChar_cons, ih]

theorem rawText_rawString (s : String) : rawText (rawString s) = (jsonEscape s).toList := by
  rw [rawText, rawString, List.flatMap_map, jsonEscape, String.toList_ofList]
  congr 1
  funext c
  exact text_rawChar c

theorem text_str_rawString (s : String) :
    (Tok.str (rawString s)).text = '"' :: ((jsonEscape s).toList ++ ['"']) := by
  rw [Tok.text, rawText_rawString, List.cons_append]

/-! ## The object -/

/-- The number 1. -/
def numberOne : Number := ⟨['1'], by simp, by simp, by simp⟩

/-- The members of the body. -/
def recordMembers (name : String) (recordType : RecordType) (value : String) : Members :=
  .cons (rawString "type") (.str (rawString recordType.asLabel)) <|
  .cons (rawString "name") (.str (rawString name)) <|
  .cons (rawString "content") (.str (rawString value)) <|
  .cons (rawString "ttl") (.number numberOne) <|
  .cons (rawString "proxied") (.bool false) .nil

theorem jsonEscape_asLabel (recordType : RecordType) :
    jsonEscape recordType.asLabel = recordType.asLabel := by
  cases recordType <;> decide

theorem says_recordJson (name : String) (recordType : RecordType) (value : String) :
    Says (recordJson name recordType value) (.obj (recordMembers name recordType value)) := by
  refine ⟨fun _ => Ws.none, ?_⟩
  have htype : (jsonEscape "type").toList = "type".toList := by decide
  have hname : (jsonEscape "name").toList = "name".toList := by decide
  have hcontent : (jsonEscape "content").toList = "content".toList := by decide
  have httl : (jsonEscape "ttl").toList = "ttl".toList := by decide
  have hproxied : (jsonEscape "proxied").toList = "proxied".toList := by decide
  rw [render_none]
  simp only [recordMembers, Value.tokens, Members.tokens, List.flatMap_cons, List.flatMap_append,
    List.flatMap_nil, text_str_rawString, htype, hname, hcontent, httl, hproxied,
    jsonEscape_asLabel, if_true, Bool.false_eq_true, if_false, recordJson, String.toList_append]
  simp [Tok.text, Punct.char, numberOne]

/-- **The body is one object, with the name and the value as they were given.** -/
theorem recordJson_object (name : String) (recordType : RecordType) (value : String) :
    ∃ members, (∀ v, Says (recordJson name recordType value) v ↔ v = .obj members) ∧
    ∃ type' name' content', members.entries =
      [("type", .str type'), ("name", .str name'), ("content", .str content'),
        ("ttl", .number numberOne), ("proxied", .bool false)] ∧
      String.ofList (decode type') = recordType.asLabel ∧
      String.ofList (decode name') = name ∧ String.ofList (decode content') = value := by
  have hsays := says_recordJson name recordType value
  refine ⟨recordMembers name recordType value, fun v => ⟨fun hv => hv.unique hsays, ?_⟩,
    rawString recordType.asLabel, rawString name, rawString value, ?_, ?_, ?_, ?_⟩
  · rintro rfl
    exact hsays
  · simp only [recordMembers, Members.entries, decode_rawString, String.ofList_toList]
  · rw [decode_rawString, String.ofList_toList]
  · rw [decode_rawString, String.ofList_toList]
  · rw [decode_rawString, String.ofList_toList]

end OCF.Lb
