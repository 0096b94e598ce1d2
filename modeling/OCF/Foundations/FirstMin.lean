import Mathlib.Order.WithBot

/-!
# The first minimum of a list

A list is searched for its least element in one pass: the element kept so far gives way to a later
one only when the comparison puts it strictly above. Where the comparison agrees with the order of
a key, what is found is the earliest of the elements with the least key (`minBy_isFirstMin`).
Where some elements have no key and the comparison then puts the earlier one above the later one,
everything before such an element is forgotten (`minBy_isLeastKey_iff`). `prefer` narrows a list to
the elements with a property, unless none has it.
-/

namespace OCF

variable {α β : Type*}

/-- The minimum of a list under a comparison; of two equal elements the earlier one stays. -/
def minBy (cmp : α → α → Ordering) : List α → Option α
  | [] => none
  | a :: l => some (l.foldl (fun x y => if cmp x y = .gt then y else x) a)

/-- The elements with a property, or all of them when none has it. -/
def prefer (p : α → Bool) (l : List α) : List α :=
  if ∃ a ∈ l, p a then l.filter p else l

/-- The narrowing by a filter, and what to do when it leaves nothing. -/
theorem prefer_eq_filter (p : α → Bool) (l : List α) :
    prefer p l = if !(l.filter p).isEmpty then l.filter p else l := by
  unfold prefer
  by_cases h : ∃ a ∈ l, p a
  · have hne : l.filter p ≠ [] := by
      obtain ⟨a, ha, hp⟩ := h
      exact List.ne_nil_of_mem (List.mem_filter.2 ⟨ha, hp⟩)
    simp only [if_pos h, List.isEmpty_eq_false_iff.2 hne, Bool.not_false, if_true]
  · have hnil : l.filter p = [] :=
      List.filter_eq_nil_iff.2 fun a ha hp => h ⟨a, ha, hp⟩
    simp only [if_neg h, hnil, List.isEmpty_nil, Bool.not_true, Bool.false_eq_true, if_false]

theorem mem_of_mem_prefer {p : α → Bool} {l : List α} {a : α} (h : a ∈ prefer p l) : a ∈ l := by
  unfold prefer at h
  split_ifs at h
  · exact (List.mem_filter.1 h).1
  · exact h

theorem prefer_holds {p : α → Bool} {l : List α} {a : α} (h : a ∈ prefer p l)
    (hp : ∃ b ∈ l, p b) : p a := by
  rw [prefer, if_pos hp] at h
  exact (List.mem_filter.1 h).2

theorem prefer_eq_nil_iff {p : α → Bool} {l : List α} : prefer p l = [] ↔ l = [] := by
  constructor
  · intro h
    by_contra hl
    unfold prefer at h
    split_ifs at h with hp
    · obtain ⟨b, hb, hpb⟩ := hp
      exact absurd (h ▸ List.mem_filter.2 ⟨hb, hpb⟩) List.not_mem_nil
    · exact hl h
  · rintro rfl
    simp [prefer]

section Order

variable [LinearOrder β] {k : α → β}

/-- `a` is the earliest element of the list with the least key. -/
def IsFirstMin (k : α → β) (l : List α) (a : α) : Prop :=
  ∃ before after, l = before ++ a :: after ∧ (∀ b ∈ before, k a < k b) ∧ ∀ b ∈ after, k a ≤ k b

theorem isFirstMin_singleton (k : α → β) (a : α) : IsFirstMin k [a] a :=
  ⟨[], [], rfl, by simp, by simp⟩

theorem IsFirstMin.mem {l : List α} {a : α} (h : IsFirstMin k l a) : a ∈ l := by
  obtain ⟨before, after, rfl, -, -⟩ := h
  simp

/-- The key of the first minimum bounds every key. -/
theorem IsFirstMin.le {l : List α} {a b : α} (h : IsFirstMin k l a) (hb : b ∈ l) : k a ≤ k b := by
  obtain ⟨before, after, rfl, hbefore, hafter⟩ := h
  rcases List.mem_append.1 hb with hb | hb
  · exact (hbefore b hb).le
  · rcases List.mem_cons.1 hb with rfl | hb
    · exact le_rfl
    · exact hafter b hb

/-- A later element that is not below the first minimum leaves it in place. -/
theorem IsFirstMin.append_le {l : List α} {a b : α} (h : IsFirstMin k l a) (hb : k a ≤ k b) :
    IsFirstMin k (l ++ [b]) a := by
  obtain ⟨before, after, rfl, hbefore, hafter⟩ := h
  refine ⟨before, after ++ [b], by simp, hbefore, fun c hc => ?_⟩
  rcases List.mem_append.1 hc with hc | hc
  · exact hafter c hc
  · rwa [List.mem_singleton.1 hc]

/-- A later element below the first minimum replaces it. -/
theorem IsFirstMin.append_lt {l : List α} {a b : α} (h : IsFirstMin k l a) (hb : k b < k a) :
    IsFirstMin k (l ++ [b]) b :=
  ⟨l, [], rfl, fun _ hc => hb.trans_le (h.le hc), by simp⟩

/-- The pass over the rest of a list, from the first minimum of what has been seen. -/
theorem IsFirstMin.foldl {cmp : α → α → Ordering} {rest seen : List α} {a : α}
    (h : IsFirstMin k seen a)
    (hcmp : ∀ x ∈ seen ++ rest, ∀ y ∈ seen ++ rest, cmp x y = .gt ↔ k y < k x) :
    IsFirstMin k (seen ++ rest) (rest.foldl (fun x y => if cmp x y = .gt then y else x) a) := by
  induction rest generalizing seen a with
  | nil => simpa using h
  | cons b rest ih =>
    have ha : a ∈ seen ++ b :: rest := List.mem_append_left _ h.mem
    have hb : b ∈ seen ++ b :: rest := by simp
    have hassoc : seen ++ b :: rest = (seen ++ [b]) ++ rest := by simp
    rw [hassoc] at hcmp ha hb ⊢
    rw [List.foldl_cons]
    split_ifs with hgt
    · exact ih (h.append_lt ((hcmp a ha b hb).1 hgt)) hcmp
    · exact ih (h.append_le (not_lt.1 fun hlt => hgt ((hcmp a ha b hb).2 hlt))) hcmp

/-- Where the comparison agrees with the order of a key, the minimum found is the first one. -/
theorem minBy_isFirstMin {cmp : α → α → Ordering} {l : List α} {a : α}
    (hcmp : ∀ x ∈ l, ∀ y ∈ l, cmp x y = .gt ↔ k y < k x) (h : minBy cmp l = some a) :
    IsFirstMin k l a := by
  cases l with
  | nil => cases h
  | cons b l =>
    obtain rfl := Option.some.inj h
    exact (isFirstMin_singleton k b).foldl hcmp

end Order

theorem minBy_eq_none_iff {cmp : α → α → Ordering} {l : List α} : minBy cmp l = none ↔ l = [] := by
  cases l <;> simp [minBy]

/-- The pass keeps an element of any set that holds the first element and the rest. -/
theorem foldl_min_mem {cmp : α → α → Ordering} {S : Set α} {l : List α} {a : α} (ha : a ∈ S)
    (hl : ∀ b ∈ l, b ∈ S) : l.foldl (fun x y => if cmp x y = .gt then y else x) a ∈ S := by
  induction l generalizing a with
  | nil => exact ha
  | cons b l ih =>
    rw [List.foldl_cons]
    refine ih ?_ fun c hc => hl c (List.mem_cons_of_mem b hc)
    split_ifs
    · exact hl b List.mem_cons_self
    · exact ha

/-- The element found is one of the list, whatever the comparison. -/
theorem mem_of_minBy {cmp : α → α → Ordering} {l : List α} {a : α} (h : minBy cmp l = some a) :
    a ∈ l := by
  cases l with
  | nil => cases h
  | cons b l =>
    obtain rfl := Option.some.inj h
    exact foldl_min_mem (S := {x | x ∈ b :: l}) List.mem_cons_self fun c hc =>
      List.mem_cons_of_mem b hc

/-- An element that everything before it gives way to is held when the pass has come to it. -/
theorem minBy_append_cons_of_gt {cmp : α → α → Ordering} {before after : List α} {a : α}
    (h : ∀ x ∈ before, cmp x a = .gt) :
    minBy cmp (before ++ a :: after) = minBy cmp (a :: after) := by
  cases before with
  | nil => rfl
  | cons c before =>
    have hmem : before.foldl (fun x y => if cmp x y = .gt then y else x) c ∈ c :: before :=
      foldl_min_mem (S := {x | x ∈ c :: before}) List.mem_cons_self fun b hb =>
        List.mem_cons_of_mem c hb
    rw [List.cons_append, minBy, List.foldl_append, List.foldl_cons, if_pos (h _ hmem), minBy]

/-! ## Elements without a key -/

section Incomparable

variable [LinearOrder β] {k : α → Option β} {cmp : α → α → Ordering} {l : List α}

/-- The comparison puts the earlier element above the later one when it has the greater key, and
also when one of the two has none. -/
def YieldsToLater (k : α → Option β) (cmp : α → α → Ordering) : Prop :=
  ∀ x y, cmp x y = .gt ↔ ∀ v ∈ k x, ∀ w ∈ k y, w < v

/-- `a` has the least of the keys that there are. -/
def IsLeastKey (k : α → Option β) (l : List α) (a : α) : Prop :=
  ∃ v, k a = some v ∧ ∀ b ∈ l, ∀ w ∈ k b, v ≤ w

/-- What comes before an element without a key is forgotten. -/
theorem minBy_append_cons_of_none (hcmp : YieldsToLater k cmp) {before after : List α} {a : α}
    (ha : k a = none) :
    minBy cmp (before ++ a :: after) = if after = [] then some a else minBy cmp after := by
  rw [minBy_append_cons_of_gt fun x _ => (hcmp x a).2 (by simp [ha])]
  cases after with
  | nil => rfl
  | cons b after =>
    have hgt : cmp a b = .gt := (hcmp a b).2 (by simp [ha])
    have hnext : minBy cmp ([a] ++ b :: after) = minBy cmp (b :: after) :=
      minBy_append_cons_of_gt fun x hx => List.mem_singleton.1 hx ▸ hgt
    simpa using hnext

/-- A list falls apart at the last element without a property. -/
theorem forall_or_exists_last (p : α → Prop) (l : List α) :
    (∀ x ∈ l, p x) ∨ ∃ before a after, l = before ++ a :: after ∧ ¬p a ∧ ∀ x ∈ after, p x := by
  induction l with
  | nil => exact .inl (by simp)
  | cons b l ih =>
    obtain hall | ⟨before, a, after, rfl, ha, hafter⟩ := ih
    · by_cases hb : p b
      · exact .inl (List.forall_mem_cons.2 ⟨hb, hall⟩)
      · exact .inr ⟨[], b, l, rfl, hb, hall⟩
    · exact .inr ⟨b :: before, a, after, rfl, ha, hafter⟩

/-- Of two elements, one that the other does not come after comes before it. -/
theorem mem_after_of_append_eq {before after before' after' : List α} {a c : α}
    (h : before ++ c :: after = before' ++ a :: after') (hc : c ∉ after') (hne : c ≠ a) :
    a ∈ after := by
  obtain ⟨t, -, hafter⟩ | ⟨t, -, hafter⟩ := List.append_eq_append_iff.1 h
  · obtain _ | ⟨d, t⟩ := t
    · exact absurd (List.cons.inj hafter).1 hne
    · rw [(List.cons.inj hafter).2]
      simp
  · obtain _ | ⟨d, t⟩ := t
    · exact absurd (List.cons.inj hafter).1.symm hne
    · refine absurd ?_ hc
      rw [(List.cons.inj hafter).2]
      simp

/-- Of two elements, one that does not come before the other comes after it. -/
theorem mem_before_of_append_eq {before after before' after' : List α} {a c : α}
    (h : before ++ c :: after = before' ++ a :: after') (hc : c ∉ before') (hne : c ≠ a) :
    a ∈ before := by
  have hrev : after.reverse ++ c :: before.reverse = after'.reverse ++ a :: before'.reverse := by
    simpa using congrArg List.reverse h
  simpa using mem_after_of_append_eq hrev (by simpa using hc) hne

/-- Where every element has a key, the minimum found has the least one. -/
theorem minBy_of_forall_ne_none (hcmp : YieldsToLater k cmp) (hl : ∀ x ∈ l, k x ≠ none) {a : α}
    (h : minBy cmp l = some a) : IsLeastKey k l a := by
  obtain ⟨v₀, hv₀⟩ := Option.ne_none_iff_exists'.1 (hl a (mem_of_minBy h))
  -- the keys with some value in place of a missing one
  have hkey : ∀ x ∈ l, k x = some ((k x).getD v₀) := fun x hx => by
    obtain ⟨v, hv⟩ := Option.ne_none_iff_exists'.1 (hl x hx)
    rw [hv, Option.getD_some]
  have hmin : IsFirstMin (fun x => (k x).getD v₀) l a := by
    refine minBy_isFirstMin (fun x hx y hy => ?_) h
    rw [hcmp x y, hkey x hx, hkey y hy]
    simp
  refine ⟨(k a).getD v₀, hkey a hmin.mem, fun b hb w hw => ?_⟩
  have hle := hmin.le hb
  rwa [show (k b).getD v₀ = w by rw [Option.mem_def.1 hw, Option.getD_some]] at hle

/-- **Elements without a key.** Where some element has a key, the minimum found has the least key if
and only if an element with the least key comes after all elements without one. -/
theorem minBy_isLeastKey_iff (hcmp : YieldsToLater k cmp) (hne : l ≠ []) :
    (∃ a, minBy cmp l = some a ∧ IsLeastKey k l a) ↔
      ∃ before a after, l = before ++ a :: after ∧ IsLeastKey k l a ∧ ∀ x ∈ after, k x ≠ none := by
  obtain hall | ⟨before, c, after, rfl, hc, hafter⟩ := forall_or_exists_last (k · ≠ none) l
  · constructor
    · rintro ⟨a, ha, hleast⟩
      obtain ⟨before, after, rfl⟩ := List.append_of_mem (mem_of_minBy ha)
      exact ⟨before, a, after, rfl, hleast, fun x hx => hall x (by simp [hx])⟩
    · intro _
      obtain ⟨a, ha⟩ := Option.ne_none_iff_exists'.1 (mt minBy_eq_none_iff.1 hne)
      exact ⟨a, ha, minBy_of_forall_ne_none hcmp hall ha⟩
  · rw [not_not] at hc
    rw [minBy_append_cons_of_none hcmp hc]
    constructor
    · rintro ⟨a, ha, hleast⟩
      split_ifs at ha with hnil
      · obtain rfl := Option.some.inj ha
        obtain ⟨v, hv, -⟩ := hleast
        rw [hc] at hv
        cases hv
      · obtain ⟨before', after', rfl⟩ := List.append_of_mem (mem_of_minBy ha)
        exact ⟨before ++ c :: before', a, after', by simp, hleast, fun x hx => hafter x (by simp [hx])⟩
    · rintro ⟨before', a, after', heq, ⟨v, hv, hleast⟩, hafter'⟩
      have hmem : a ∈ after := by
        refine mem_after_of_append_eq heq (fun hmem => hafter' c hmem hc) ?_
        rintro rfl
        rw [hc] at hv
        cases hv
      obtain ⟨b, hb⟩ := Option.ne_none_iff_exists'.1
        (mt minBy_eq_none_iff.1 (List.ne_nil_of_mem hmem) : minBy cmp after ≠ none)
      obtain ⟨w, hw, hleast'⟩ := minBy_of_forall_ne_none hcmp hafter hb
      refine ⟨b, by rw [if_neg (List.ne_nil_of_mem hmem), hb], w, hw, fun x hx u hu => ?_⟩
      exact (hleast' a hmem v hv).trans (hleast x hx u hu)

/-- **A default for a missing key.** The first minimum has the least of the keys that there are if
and only if every element without a key is beaten: by a key below the default, or by an earlier
element whose key is the default. -/
theorem IsFirstMin.isLeastKey_iff {d : β} {a : α} (h : IsFirstMin (fun x => (k x).getD d) l a) :
    IsLeastKey k l a ↔ ∀ before u after, l = before ++ u :: after → k u = none →
      (∃ c ∈ l, ∃ v ∈ k c, v < d) ∨ ∃ c ∈ before, k c = some d := by
  obtain ⟨before', after', heq, hbefore, -⟩ := id h
  constructor
  · rintro ⟨v, hv, -⟩ before u after rfl hu
    have hle : (k a).getD d ≤ (k u).getD d := h.le (by simp)
    rw [hv, hu, Option.getD_some, Option.getD_none] at hle
    rcases hle.lt_or_eq with hlt | rfl
    · exact .inl ⟨a, h.mem, v, hv, hlt⟩
    · refine .inr ⟨a, mem_before_of_append_eq heq (fun hmem => ?_) ?_, hv⟩
      · have hlt := hbefore u hmem
        simp [hv, hu] at hlt
      · rintro rfl
        simp [hv] at hu
  · intro hbeaten
    cases ha : k a with
    | none =>
      obtain ⟨c, hc, v, hv, hlt⟩ | ⟨c, hc, hv⟩ := hbeaten before' a after' heq ha
      · have hle := h.le hc
        simp only [ha, Option.mem_def.1 hv, Option.getD_none, Option.getD_some] at hle
        exact absurd hlt hle.not_gt
      · have hlt := hbefore c hc
        simp [ha, hv] at hlt
    | some v =>
      refine ⟨v, ha, fun b hb w hw => ?_⟩
      have hle := h.le hb
      simpa [ha, Option.mem_def.1 hw] using hle

end Incomparable

end OCF
