import OCF.Foundations.Utf8
import Mathlib.Tactic.Common

/-!
# Scanning a string by its bytes

A string is a sequence of characters and also the sequence of their UTF-8 bytes. A scanner moves an
index along the bytes and takes out pieces of the string between two such indexes, which fails where
an index is not at the beginning of a character (`slice`).

A loop that looks for ASCII bytes stops only at the beginning of a character, for no ASCII byte
stands within the encoding of another character (`mem_utf8EncodeChar_iff`). So it stops where a loop
over the characters does (`advance_bytes`), and the pieces it takes out are there (`slice_bytes`).
-/

namespace OCF.ByteScan

/-- The byte of an ASCII character. -/
def byte (c : Char) : UInt8 := UInt8.ofNat c.toNat

/-- Cut a text at a byte index. -/
def cut : List Char → ℕ → Option (List Char × List Char)
  | s, 0 => some ([], s)
  | [], _ + 1 => none
  | c :: s, n + 1 =>
    if c.utf8Size ≤ n + 1 then (cut s (n + 1 - c.utf8Size)).map fun p => (c :: p.1, p.2) else none

/-- The text between two byte indexes. -/
def slice (s : List Char) (a b : ℕ) : Option (List Char) :=
  if a ≤ b then (cut s a).bind fun p => (cut p.2 (b - a)).map Prod.fst else none

/-- Move an index on while there is a byte that meets a condition. -/
def advance (p : UInt8 → Bool) (bs : List UInt8) (i : ℕ) : ℕ :=
  if h : i < bs.length then if p bs[i] then advance p bs (i + 1) else i else i
termination_by bs.length - i

/-! ## Cutting -/

@[simp] theorem bytes_nil : bytes [] = [] := rfl

@[simp] theorem bytes_cons (c : Char) (s : List Char) :
    bytes (c :: s) = String.utf8EncodeChar c ++ bytes s := List.flatMap_cons

@[simp] theorem bytes_append (s t : List Char) : bytes (s ++ t) = bytes s ++ bytes t :=
  List.flatMap_append

theorem length_bytes_cons (c : Char) (s : List Char) :
    (bytes (c :: s)).length = c.utf8Size + (bytes s).length := by
  rw [bytes_cons, List.length_append, String.length_utf8EncodeChar]

/-- A text is cut at the end of what is put before it. -/
theorem cut_append (s t : List Char) : cut (s ++ t) (bytes s).length = some (s, t) := by
  induction s with
  | nil =>
    rw [List.nil_append, bytes_nil, List.length_nil]
    unfold cut
    rfl
  | cons c s ih =>
    obtain ⟨n, hn⟩ := Nat.exists_eq_succ_of_ne_zero c.utf8Size_pos.ne'
    have hlen : (bytes (c :: s)).length = n + (bytes s).length + 1 := by
      rw [length_bytes_cons, hn]
      omega
    rw [hlen, List.cons_append, cut, if_pos (by omega),
      show n + (bytes s).length + 1 - c.utf8Size = (bytes s).length by omega, ih]
    rfl

theorem slice_bytes (s t u : List Char) :
    slice (s ++ (t ++ u)) (bytes s).length (bytes (s ++ t)).length = some t := by
  have hlen : (bytes (s ++ t)).length = (bytes s).length + (bytes t).length := by
    rw [bytes_append, List.length_append]
  rw [slice, if_pos (by omega), cut_append, Option.bind_some, hlen, Nat.add_sub_cancel_left,
    cut_append]
  rfl

/-! ## ASCII bytes -/

theorem utf8EncodeChar_of_ascii {c : Char} (hc : c.toNat < 128) :
    String.utf8EncodeChar c = [byte c] := by
  have hle : c.val.toNat ≤ 127 := by
    have h : c.val.toNat < 128 := hc
    omega
  simp only [String.utf8EncodeChar, hle, if_true]
  rfl

theorem le_of_mem_utf8EncodeChar {c : Char} (hc : 128 ≤ c.toNat) {b : UInt8}
    (hb : b ∈ String.utf8EncodeChar c) : 128 ≤ b.toNat := by
  have hle : ¬ c.val.toNat ≤ 127 := by
    have h : 128 ≤ c.val.toNat := hc
    omega
  simp only [String.utf8EncodeChar, hle, if_false] at hb
  split_ifs at hb <;> simp only [List.mem_cons, List.not_mem_nil, or_false] at hb <;>
    rcases hb with rfl | rfl | rfl | rfl <;> simp <;> omega

/-- An ASCII byte stands in the encoding of its own character and of no other one. -/
theorem mem_utf8EncodeChar_iff {c d : Char} (hd : d.toNat < 128) :
    byte d ∈ String.utf8EncodeChar c ↔ c = d := by
  have hbyte : (byte d).toNat = d.toNat := UInt8.toNat_ofNat_of_lt' (by
    simp only [UInt8.size]
    omega)
  constructor
  · intro h
    by_cases hc : c.toNat < 128
    · rw [utf8EncodeChar_of_ascii hc, List.mem_singleton] at h
      have hc' : (byte c).toNat = c.toNat := UInt8.toNat_ofNat_of_lt' (by
        simp only [UInt8.size]
        omega)
      rw [← Char.ofNat_toNat c, ← Char.ofNat_toNat d, ← hbyte, h, hc']
    · have hle := le_of_mem_utf8EncodeChar (by omega) h
      omega
  · rintro rfl
    rw [utf8EncodeChar_of_ascii hd]
    exact List.mem_singleton_self _

/-- A condition on characters and one on bytes that tell the same characters apart: all bytes of a
character meet it, or the first one does not. -/
def Agrees (p : UInt8 → Prop) (q : Char → Prop) : Prop :=
  ∀ c, (q c → ∀ b ∈ String.utf8EncodeChar c, p b) ∧
    (¬ q c → ∀ b ∈ (String.utf8EncodeChar c).head?, ¬ p b)

theorem Agrees.eq {d : Char} (hd : d.toNat < 128) :
    Agrees (fun b => b = byte d) fun c => c = d := by
  refine fun c => ⟨?_, fun hc b hb hbd => ?_⟩
  · rintro rfl b hb
    rwa [utf8EncodeChar_of_ascii hd, List.mem_singleton] at hb
  · exact hc ((mem_utf8EncodeChar_iff hd).1 (hbd ▸ List.mem_of_mem_head? hb))

theorem Agrees.ne {d : Char} (hd : d.toNat < 128) :
    Agrees (fun b => b ≠ byte d) fun c => c ≠ d := by
  refine fun c => ⟨fun hc b hb hbd => ?_, fun hc b hb hne => hne ?_⟩
  · exact hc ((mem_utf8EncodeChar_iff hd).1 (hbd ▸ hb))
  · rw [not_not.1 hc, utf8EncodeChar_of_ascii hd] at hb
    simpa using hb.symm

theorem Agrees.and {p p' : UInt8 → Prop} {q q' : Char → Prop} (h : Agrees p q) (h' : Agrees p' q') :
    Agrees (fun b => p b ∧ p' b) fun c => q c ∧ q' c := by
  refine fun c => ⟨fun hc b hb => ⟨(h c).1 hc.1 b hb, (h' c).1 hc.2 b hb⟩, fun hc b hb hp => ?_⟩
  by_cases hq : q c
  · exact (h' c).2 (fun hq' => hc ⟨hq, hq'⟩) b hb hp.2
  · exact (h c).2 hq b hb hp.1

theorem head?_bytes_eq_some_iff {d : Char} (hd : d.toNat < 128) (s : List Char) :
    (bytes s).head? = some (byte d) ↔ s.head? = some d := by
  cases s with
  | nil => simp
  | cons c s =>
    rw [bytes_cons, List.head?_append_of_ne_nil _ String.utf8EncodeChar_ne_nil, List.head?_cons,
      Option.some_inj]
    constructor
    · exact fun h => (mem_utf8EncodeChar_iff hd).1 (List.mem_of_mem_head? h)
    · rintro rfl
      rw [utf8EncodeChar_of_ascii hd]
      rfl

/-! ## Scanning -/

theorem advance_eq (p : UInt8 → Bool) (bs : List UInt8) (i : ℕ) :
    advance p bs i = i + ((bs.drop i).takeWhile p).length := by
  fun_induction advance p bs i with
  | case1 i h hp ih =>
    rw [ih, List.drop_eq_getElem_cons h, List.takeWhile_cons_of_pos hp, List.length_cons]
    omega
  | case2 i h hp =>
    rw [List.drop_eq_getElem_cons h, List.takeWhile_cons_of_neg hp, List.length_nil, Nat.add_zero]
  | case3 i h =>
    rw [List.drop_eq_nil_of_le (by omega), List.takeWhile_nil, List.length_nil, Nat.add_zero]

section

variable {p : UInt8 → Prop} {q : Char → Prop} [DecidablePred p] [DecidablePred q]

theorem takeWhile_bytes (h : Agrees p q) (s : List Char) :
    (bytes s).takeWhile (fun b => p b) = bytes (s.takeWhile fun c => q c) := by
  induction s with
  | nil => rfl
  | cons c s ih =>
    by_cases hc : q c
    · have hall : ∀ b ∈ String.utf8EncodeChar c, decide (p b) = true := by
        simpa using (h c).1 hc
      rw [List.takeWhile_cons_of_pos (by simpa using hc), bytes_cons, bytes_cons,
        List.takeWhile_append_of_pos hall, ih]
    · obtain ⟨b, bs, hb⟩ := List.exists_cons_of_ne_nil (String.utf8EncodeChar_ne_nil (c := c))
      have hfirst : ¬ p b := (h c).2 hc b (by simp [hb])
      rw [List.takeWhile_cons_of_neg (by simpa using hc), bytes_cons, hb, List.cons_append,
        List.takeWhile_cons_of_neg (by simpa using hfirst), bytes_nil]

/-- **The scan stops at a character**, the first one that does not meet the condition. -/
theorem advance_bytes (h : Agrees p q) (s t : List Char) :
    advance (fun b => p b) (bytes (s ++ t)) (bytes s).length =
      (bytes (s ++ t.takeWhile fun c => q c)).length := by
  rw [advance_eq, bytes_append, List.drop_left, takeWhile_bytes h, bytes_append, List.length_append]

end

/-- The byte at the end of what is put before a text. -/
theorem getElem?_bytes (s t : List Char) :
    (bytes (s ++ t))[(bytes s).length]? = (bytes t).head? := by
  rw [bytes_append, List.getElem?_append_right le_rfl, Nat.sub_self, List.head?_eq_getElem?]

end OCF.ByteScan
