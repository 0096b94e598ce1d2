import Mathlib.Data.List.Infix
import Mathlib.Data.Nat.Notation

/-!
# Length-prefixed frames

A frame is a length of two bytes, the more significant one first, and that many bytes. What is read
back from a sequence of frames is the first of them and the rest (`unframe_frame_append`), and from
a frame that is cut off anywhere nothing is read (`unframe_cut`). `Cut` is a proper beginning; a
beginning of two parts is a beginning of the first or reaches into the second (`Cut.append_cases`).
-/

namespace OCF

variable {α : Type*}

/-- The list ends early: it is a beginning of the other one, and not all of it. -/
def Cut (p l : List α) : Prop := p <+: l ∧ p ≠ l

theorem Cut.length_lt {p l : List α} (h : Cut p l) : p.length < l.length :=
  lt_of_le_of_ne h.1.length_le fun he => h.2 (h.1.eq_of_length he)

/-- Two parts are cut off within the first, or within the second. -/
theorem Cut.append_cases {p a b : List α} (h : Cut p (a ++ b)) :
    Cut p a ∨ ∃ q, p = a ++ q ∧ Cut q b := by
  obtain ⟨hp, hne⟩ := h
  obtain hpa | ⟨q, rfl⟩ := List.prefix_or_prefix_of_prefix hp (List.prefix_append a b)
  · by_cases hpe : p = a
    · subst hpe
      exact .inr ⟨[], by simp, List.nil_prefix, fun hb => hne (by simp [← hb])⟩
    · exact .inl ⟨hpa, hpe⟩
  · exact .inr ⟨q, rfl, (List.prefix_append_right_inj a).1 hp, fun hqb => hne (by rw [hqb])⟩

/-- A 16-bit number, the more significant byte first. -/
def u16be (n : ℕ) : List UInt8 := [UInt8.ofNat (n / 256), UInt8.ofNat n]

/-- A frame: the length of the data, and the data. -/
def frame (data : List UInt8) : List UInt8 := u16be data.length ++ data

/-- What is missing of a frame. -/
inductive Missing
  | length | body
  deriving DecidableEq

/-- Read a frame; the rest is left. -/
def unframe : List UInt8 → Except Missing (List UInt8 × List UInt8)
  | hi :: lo :: rest =>
    let len := hi.toNat * 256 + lo.toNat
    if rest.length < len then .error .body else .ok (rest.take len, rest.drop len)
  | _ => .error .length

theorem length_lt_of_unframe {l data rest : List UInt8} (h : unframe l = .ok (data, rest)) :
    rest.length < l.length := by
  unfold unframe at h
  split at h
  · dsimp only at h
    split_ifs at h
    obtain ⟨-, rfl⟩ := Prod.mk.inj (Except.ok.inj h)
    simp only [List.length_drop, List.length_cons]
    omega
  · cases h

theorem unframe_u16be_append {n : ℕ} (hn : n < 65536) (l : List UInt8) :
    unframe (u16be n ++ l) =
      if l.length < n then .error .body else .ok (l.take n, l.drop n) := by
  have hlen : (UInt8.ofNat (n / 256)).toNat * 256 + (UInt8.ofNat n).toNat = n := by
    simp only [UInt8.toNat_ofNat']
    omega
  simp only [u16be, List.cons_append, List.nil_append, unframe, hlen]

/-- The first frame is read and the rest is left. -/
theorem unframe_frame_append {data : List UInt8} (hd : data.length < 65536) (rest : List UInt8) :
    unframe (frame data ++ rest) = .ok (data, rest) := by
  rw [frame, List.append_assoc, unframe_u16be_append hd, if_neg (by simp)]
  simp

/-- Nothing is read from a frame that is cut off. -/
theorem unframe_cut {data p : List UInt8} (hd : data.length < 65536) (h : Cut p (frame data)) :
    ∃ m, unframe p = .error m := by
  obtain hlen | ⟨q, rfl, hq⟩ := h.append_cases
  · -- not even the length is there
    have hshort : p.length < 2 := hlen.length_lt
    obtain _ | ⟨x, _ | ⟨y, p⟩⟩ := p
    · exact ⟨.length, rfl⟩
    · exact ⟨.length, rfl⟩
    · simp only [List.length_cons] at hshort
      omega
  · rw [unframe_u16be_append hd, if_pos hq.length_lt]
    exact ⟨.body, rfl⟩

end OCF
