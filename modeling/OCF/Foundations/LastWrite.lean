import OCF.Foundations.Run
import Mathlib.Data.List.Induction

/-!
# Runs in which every step writes one cell

A store is read at keys. When every step writes the cell of its own key, with a value or with
nothing, and leaves the others alone, a cell holds at the end what the last step with its key
wrote, and what it held at the start when there is none (`run_read`). `lastWith` is that step.
-/

namespace OCF

variable {α K V σ : Type*} [DecidableEq K]

/-- The last entry of a list with a given key. -/
def lastWith (key : α → K) (es : List α) (x : K) : Option α :=
  es.reverse.find? fun e => key e = x

variable {key : α → K} {es : List α} {e : α} {x : K}

theorem lastWith_append (es fs : List α) :
    lastWith key (es ++ fs) x = (lastWith key fs x).or (lastWith key es x) := by
  rw [lastWith, List.reverse_append, List.find?_append]
  rfl

theorem lastWith_concat :
    lastWith key (es ++ [e]) x = if key e = x then some e else lastWith key es x := by
  rw [lastWith_append]
  by_cases h : key e = x <;> simp [h, lastWith]

theorem lastWith_map {β : Type*} (f : β → α) (bs : List β) :
    lastWith key (bs.map f) x = (lastWith (fun b => key (f b)) bs x).map f := by
  rw [lastWith, lastWith, ← List.map_reverse, List.find?_map]
  rfl

theorem lastWith_eq_some_key (h : lastWith key es x = some e) : e ∈ es ∧ key e = x := by
  refine ⟨List.mem_reverse.1 (List.mem_of_find?_eq_some h), ?_⟩
  simpa using List.find?_some h

theorem lastWith_eq_none : lastWith key es x = none ↔ ∀ e ∈ es, key e ≠ x := by
  simp [lastWith, List.find?_eq_none]

theorem lastWith_of_mem (h : e ∈ es) : ∃ e', lastWith key es (key e) = some e' ∧ e' ∈ es ∧
    key e' = key e := by
  cases hl : lastWith key es (key e) with
  | none => exact absurd rfl (lastWith_eq_none.1 hl e h)
  | some e' => exact ⟨e', rfl, lastWith_eq_some_key hl⟩

/-- A key that only one entry has is last written by that entry. -/
theorem lastWith_eq_of_unique (h : e ∈ es) (hu : ∀ e' ∈ es, key e' = key e → e' = e) :
    lastWith key es (key e) = some e := by
  obtain ⟨e', hl, hmem, hkey⟩ : ∃ e', lastWith key es (key e) = some e' ∧ e' ∈ es ∧
      key e' = key e := lastWith_of_mem h
  rw [hl, hu e' hmem hkey]

/-- **The last write wins.** -/
theorem run_read {step : σ → α → Option σ} (read : σ → K → Option V) {val : α → Option V}
    (hstep : ∀ s e s', step s e = some s' → ∀ x, read s' x = if x = key e then val e else read s x)
    {s s' : σ} (h : run step s es = some s') (x : K) :
    read s' x = (lastWith key es x).elim (read s x) val := by
  induction es using List.reverseRecOn generalizing s' with
  | nil =>
    obtain rfl := Option.some.inj h
    rfl
  | append_singleton es e ih =>
    rw [run_append, Option.bind_eq_some_iff] at h
    obtain ⟨t, ht, hlast⟩ := h
    obtain ⟨u, hu, hnil⟩ := run_cons_eq_some.1 hlast
    obtain rfl := Option.some.inj hnil
    rw [hstep t e u hu x, lastWith_concat, ih ht]
    by_cases hx : x = key e
    · simp [hx]
    · rw [if_neg hx, if_neg (Ne.symm hx)]

end OCF
