import Mathlib.Data.List.Nodup

/-!
# Lists

What is found in a list and where, lists that are put together from parts, and computations that go
through a list and may fail.
-/

namespace OCF

/-! ## Finding -/

/-- With distinct keys an element is what is found under its key. -/
theorem find?_eq_some_of_nodup {α κ : Type*} [DecidableEq κ] {key : α → κ} {l : List α}
    (h : (l.map key).Nodup) {a : α} (ha : a ∈ l) : (l.find? fun x => key x = key a) = some a := by
  have hsome : (l.find? fun x => key x = key a).isSome := by
    rw [List.find?_isSome]
    exact ⟨a, ha, by simp⟩
  obtain ⟨b, hb⟩ := Option.isSome_iff_exists.1 hsome
  have hkey : key b = key a := by simpa using List.find?_some hb
  rw [hb, List.inj_on_of_nodup_map h (List.mem_of_find?_eq_some hb) ha hkey]

/-- An element is found first in every order if and only if it is the only one that passes. -/
theorem forall_perm_find_eq_iff {α : Type*} {l : List α} {p : α → Bool} {a : α} (ha : a ∈ l)
    (hpa : p a) :
    (∀ order : List α, order.Perm l → order.find? p = some a) ↔ ∀ b ∈ l, p b → b = a := by
  constructor
  · intro h b hb hpb
    obtain ⟨s, t, rfl⟩ := List.append_of_mem hb
    -- In the order that begins with `b`, `b` is found.
    have hfirst := h (b :: (s ++ t)) List.perm_middle.symm
    rw [List.find?_cons_of_pos hpb] at hfirst
    exact Option.some.inj hfirst
  · intro h order horder
    obtain ⟨b, hb⟩ : ∃ b, order.find? p = some b :=
      Option.isSome_iff_exists.1 (List.find?_isSome.2 ⟨a, horder.mem_iff.2 ha, hpa⟩)
    rw [hb, h b (horder.mem_iff.1 (List.mem_of_find?_eq_some hb)) (List.find?_some hb)]

/-! ## Positions -/

/-- What is first among some elements of a list is first among them in the list. -/
theorem idxOf_le_of_filter {α : Type*} [DecidableEq α] {p : α → Bool} {l : List α} {a b : α}
    (hb : p b) (h : (l.filter p).idxOf a ≤ (l.filter p).idxOf b) :
    l.idxOf a ≤ l.idxOf b := by
  induction l with
  | nil => exact Nat.le_refl _
  | cons x l ih =>
    by_cases hxa : x = a
    · simp [hxa]
    by_cases hx : p x
    · rw [List.filter_cons_of_pos hx, List.idxOf_cons_ne _ hxa] at h
      have hxb : x ≠ b := by
        rintro rfl
        simp at h
      rw [List.idxOf_cons_ne _ hxb] at h
      rw [List.idxOf_cons_ne _ hxa, List.idxOf_cons_ne _ hxb]
      exact Nat.succ_le_succ (ih (Nat.succ_le_succ_iff.1 h))
    · have hxb : x ≠ b := by
        rintro rfl
        exact hx hb
      rw [List.filter_cons_of_neg hx] at h
      rw [List.idxOf_cons_ne _ hxa, List.idxOf_cons_ne _ hxb]
      exact Nat.succ_le_succ (ih h)

/-- What is not after an element of the first part of a list is in that part. -/
theorem mem_of_idxOf_le {α : Type*} [DecidableEq α] {l r : List α} {a b : α} (hb : b ∈ l)
    (h : (l ++ r).idxOf a ≤ (l ++ r).idxOf b) : a ∈ l := by
  by_contra ha
  rw [List.idxOf_append_of_notMem ha, List.idxOf_append_of_mem hb] at h
  have := List.idxOf_lt_length_iff.2 hb
  omega

/-! ## Lists of parts -/

/-- Lists that are empty for all but one element of a list. -/
theorem flatMap_eq_of_forall_ne {α β : Type*} {l : List α} {f : α → List β} {a : α} (hl : l.Nodup)
    (ha : a ∈ l) (h : ∀ b ∈ l, b ≠ a → f b = []) : l.flatMap f = f a := by
  induction l with
  | nil => cases ha
  | cons b l ih =>
    obtain ⟨hb, hl⟩ := List.nodup_cons.1 hl
    rw [List.flatMap_cons]
    rcases List.mem_cons.1 ha with rfl | ha
    · have hrest : l.flatMap f = [] := List.flatMap_eq_nil_iff.2 fun c hc =>
        h c (List.mem_cons_of_mem _ hc) fun e => hb (e ▸ hc)
      rw [hrest, List.append_nil]
    · rw [h b List.mem_cons_self fun e => hb (e ▸ ha), List.nil_append,
        ih hl ha fun c hc => h c (List.mem_cons_of_mem _ hc)]

/-- Lists that belong to different elements have no element in common. -/
theorem nodup_flatMap_of_section {α β : Type*} {l : List α} {f : α → List β} (g : β → α)
    (hl : l.Nodup) (hf : ∀ a ∈ l, (f a).Nodup) (hg : ∀ a, ∀ b ∈ f a, g b = a) :
    (l.flatMap f).Nodup := by
  refine List.nodup_flatMap.2 ⟨hf, hl.imp fun {a a'} hne => ?_⟩
  intro b hb hb'
  exact hne ((hg a b hb).symm.trans (hg a' b hb'))

/-- A list is read back from its parts if and only if each part is. -/
theorem filterMap_map_eq_self_iff {α β : Type*} {f : β → Option α} {g : α → β} {l : List α} :
    (l.map g).filterMap f = l ↔ ∀ a ∈ l, f (g a) = some a := by
  induction l with
  | nil => simp
  | cons a l ih =>
    rw [List.map_cons, List.filterMap_cons, List.forall_mem_cons]
    cases h : f (g a) with
    | none =>
      -- a part that is lost is missing at the end
      simp only [reduceCtorEq, false_and, iff_false]
      intro heq
      have hlen := List.length_filterMap_le f (l.map g)
      rw [heq, List.length_map, List.length_cons] at hlen
      omega
    | some b => rw [List.cons.injEq, ih, Option.some_inj]

/-! ## Computations that may fail -/

/-- What a sequence of two returns is what the second returns after the first. -/
theorem ok_of_bind.{u, v} {ε : Type u} {α β : Type v} {x : Except ε α} {f : α → Except ε β} {b : β}
    (h : (x >>= f) = .ok b) : ∃ a, x = .ok a ∧ f a = .ok b := by
  cases x with
  | error e => cases h
  | ok a => exact ⟨a, rfl, h⟩

/-- Piece after piece: the results of all of them, once all of them are there. -/
theorem foldlM_append_eq_ok_iff {ε α β : Type*} {f : α → Except ε (List β)} {g : α → List β}
    {ok : α → Prop} {l : List α} {acc found : List β}
    (h : ∀ a ∈ l, ∀ part, f a = .ok part ↔ ok a ∧ part = g a) :
    l.foldlM (fun acc a => do return acc ++ (← f a)) acc = .ok found ↔
      (∀ a ∈ l, ok a) ∧ found = acc ++ l.flatMap g := by
  induction l generalizing acc with
  | nil => simp [pure, Except.pure, eq_comm]
  | cons a l ih =>
    have ha := h a List.mem_cons_self
    rw [List.foldlM_cons]
    cases hf : f a with
    | error e =>
      have hnot : ¬ ok a := fun hok => by simpa [hf] using (ha (g a)).2 ⟨hok, rfl⟩
      constructor
      · rintro ⟨⟩
      · rintro ⟨hall, _⟩
        exact absurd (hall a List.mem_cons_self) hnot
    | ok part =>
      obtain ⟨hok, rfl⟩ := (ha part).1 hf
      refine (@ih (acc ++ g a) fun a' ha' => h a' (List.mem_cons_of_mem _ ha')).trans ?_
      rw [List.forall_mem_cons, List.flatMap_cons, List.append_assoc]
      simp [hok]

end OCF
