import Mathlib.Data.Nat.Notation
import Mathlib.Data.Option.Basic

/-!
# Runs of a partial step function

A system is a step function `step : σ → α → Option σ`: `step s a` is the state after the action
`a`, or `none` when `a` is not enabled in `s`. Everything the environment decides (which task is
scheduled, which message arrives, which write fails) is part of the action, so a run is a list of
actions and the step function stays executable.

* `run step s as` takes the actions of `as` from `s`.
* `Guarded step G s as` says that every action of the run is taken in a state that admits it
  under `G`.
* `Guarded.invariant` is the invariant rule: what every admitted step preserves holds at the end
  of every guarded run, so in every state such a run passes through (`Guarded.take`).
* `Guarded.iff_forall_states` is the rule for a condition that is exact: a run is guarded if and
  only if a property holds in every state it passes through.
-/

namespace OCF

variable {σ α : Type*} {step : σ → α → Option σ} {G : σ → α → Prop} {I : σ → Prop}

/-- Take the actions of a list in order; `none` as soon as one of them is not enabled. -/
def run (step : σ → α → Option σ) : σ → List α → Option σ
  | s, [] => some s
  | s, a :: as => (step s a).bind fun s' => run step s' as

/-- Every action of the run is taken in a state that admits it. -/
def Guarded (step : σ → α → Option σ) (G : σ → α → Prop) : σ → List α → Prop
  | _, [] => True
  | s, a :: as => G s a ∧ ∀ s', step s a = some s' → Guarded step G s' as

@[simp] theorem run_nil (s : σ) : run step s [] = some s := rfl

theorem run_cons (s : σ) (a : α) (as : List α) :
    run step s (a :: as) = (step s a).bind fun s' => run step s' as := rfl

theorem run_cons_eq_some {s s' : σ} {a : α} {as : List α} :
    run step s (a :: as) = some s' ↔ ∃ t, step s a = some t ∧ run step t as = some s' := by
  rw [run_cons, Option.bind_eq_some_iff]

theorem run_append (s : σ) (as bs : List α) :
    run step s (as ++ bs) = (run step s as).bind fun t => run step t bs := by
  induction as generalizing s with
  | nil => rfl
  | cons a as ih =>
    rw [List.cons_append, run_cons, run_cons, Option.bind_assoc]
    exact congrArg _ (funext ih)

/-- A run all of whose actions are always enabled. -/
theorem exists_run {as : List α} (h : ∀ a ∈ as, ∀ s, ∃ s', step s a = some s') (s : σ) :
    ∃ s', run step s as = some s' := by
  induction as generalizing s with
  | nil => exact ⟨s, rfl⟩
  | cons a as ih =>
    obtain ⟨t, ht⟩ := h a (List.mem_cons_self ..) s
    obtain ⟨s', hs'⟩ := ih (fun b hb => h b (List.mem_cons_of_mem _ hb)) t
    exact ⟨s', run_cons_eq_some.2 ⟨t, ht, hs'⟩⟩

/-- A run whose steps are runs themselves. -/
theorem run_flatMap {β : Type*} (f : β → List α) (s : σ) (bs : List β) :
    run (fun s b => run step s (f b)) s bs = run step s (bs.flatMap f) := by
  induction bs generalizing s with
  | nil => rfl
  | cons b bs ih =>
    rw [run_cons, List.flatMap_cons, run_append]
    exact congrArg _ (funext ih)

/-- Two systems that take the same actions. -/
def both {τ : Type*} (f : σ → α → Option σ) (g : τ → α → Option τ) (st : σ × τ) (a : α) :
    Option (σ × τ) :=
  (f st.1 a).bind fun s => (g st.2 a).map fun t => (s, t)

theorem run_both {τ : Type*} {f : σ → α → Option σ} {g : τ → α → Option τ} {st st' : σ × τ}
    {as : List α} (h : run (both f g) st as = some st') :
    run f st.1 as = some st'.1 ∧ run g st.2 as = some st'.2 := by
  induction as generalizing st with
  | nil =>
    obtain rfl := Option.some.inj h
    exact ⟨rfl, rfl⟩
  | cons a as ih =>
    obtain ⟨u, hu, h⟩ := run_cons_eq_some.1 h
    obtain ⟨s, hs, hu⟩ := Option.bind_eq_some_iff.1 hu
    obtain ⟨t, ht, rfl⟩ := Option.map_eq_some_iff.1 hu
    obtain ⟨hf, hg⟩ := ih h
    exact ⟨run_cons_eq_some.2 ⟨s, hs, hf⟩, run_cons_eq_some.2 ⟨t, ht, hg⟩⟩

/-- A run with no condition on its steps is guarded by the trivial condition. -/
theorem guarded_true (s : σ) (as : List α) : Guarded step (fun _ _ => True) s as := by
  induction as generalizing s with
  | nil => trivial
  | cons a as ih => exact ⟨trivial, fun s' _ => ih s'⟩

namespace Guarded

/-- A run is guarded when its first action is admitted and the rest is guarded. -/
theorem cons {s s' : σ} {a : α} {as : List α} (h : G s a) (hs : step s a = some s')
    (hg : Guarded step G s' as) : Guarded step G s (a :: as) :=
  ⟨h, fun _ ht => Option.some.inj (hs.symm.trans ht) ▸ hg⟩

/-- The part of a guarded run before a given point is guarded. -/
theorem take {s : σ} {as : List α} (h : Guarded step G s as) (n : ℕ) :
    Guarded step G s (as.take n) := by
  induction as generalizing s n with
  | nil => simpa using h
  | cons a as ih =>
    cases n with
    | zero => trivial
    | succ n => exact ⟨h.1, fun s' hs => ih (h.2 s' hs) n⟩

/-- A run is guarded when each of its actions is admitted in the state before it. -/
theorem iff_forall_take {s : σ} {as : List α} : Guarded step G s as ↔
    ∀ n t a, run step s (as.take n) = some t → as[n]? = some a → G t a := by
  induction as generalizing s with
  | nil => simp [Guarded]
  | cons b as ih =>
    constructor
    · rintro ⟨hb, hrest⟩ n t a hrun ha
      cases n with
      | zero =>
        obtain rfl := Option.some.inj hrun
        obtain rfl := Option.some.inj ha
        exact hb
      | succ n =>
        obtain ⟨u, hu, hrun⟩ := run_cons_eq_some.1 hrun
        exact ih.1 (hrest u hu) n t a hrun ha
    · intro h
      refine ⟨h 0 s b rfl rfl, fun u hu => ih.2 fun n t a hrun ha => ?_⟩
      exact h (n + 1) t a (run_cons_eq_some.2 ⟨u, hu, hrun⟩) ha

/-- **The invariant rule.** -/
theorem invariant (hstep : ∀ s a s', I s → G s a → step s a = some s' → I s') {s s' : σ}
    {as : List α} (h : Guarded step G s as) (h0 : I s) (hr : run step s as = some s') :
    I s' := by
  induction as generalizing s with
  | nil =>
    obtain rfl := Option.some.inj hr
    exact h0
  | cons a as ih =>
    obtain ⟨t, ht, hr⟩ := run_cons_eq_some.1 hr
    exact ih (h.2 t ht) (hstep s a t h0 h.1 ht) hr

/-- A condition that implies another one in the states of an invariant it keeps. -/
theorem imp {G' : σ → α → Prop} (hstep : ∀ s a s', I s → G s a → step s a = some s' → I s')
    (himp : ∀ s a, I s → G s a → G' s a) {s : σ} {as : List α} (h : Guarded step G s as)
    (h0 : I s) : Guarded step G' s as := by
  induction as generalizing s with
  | nil => trivial
  | cons a as ih =>
    exact ⟨himp s a h0 h.1, fun t ht => ih (h.2 t ht) (hstep s a t h0 h.1 ht)⟩

/-- **The rule for an exact condition.** The invariant implies the property, and a step out of a
state of the invariant into one with the property is admitted. -/
theorem iff_forall_states {P : σ → Prop} (hP : ∀ s, I s → P s)
    (hstep : ∀ s a s', I s → G s a → step s a = some s' → I s')
    (hG : ∀ s a s', I s → step s a = some s' → P s' → G s a) {s u : σ} {as : List α}
    (h0 : I s) (hr : run step s as = some u) :
    Guarded step G s as ↔ ∀ n t, run step s (as.take n) = some t → P t := by
  constructor
  · exact fun hg n t ht => hP t ((hg.take n).invariant hstep h0 ht)
  · intro h
    induction as generalizing s with
    | nil => trivial
    | cons a as ih =>
      obtain ⟨t, ht, hr⟩ := run_cons_eq_some.1 hr
      have ha : G s a := hG s a t h0 ht (h 1 t (run_cons_eq_some.2 ⟨t, ht, rfl⟩))
      refine .cons ha ht (ih (hstep s a t h0 ha ht) hr fun n t' ht' => ?_)
      exact h (n + 1) t' (run_cons_eq_some.2 ⟨t, ht, ht'⟩)

end Guarded

/-- Whether a run is guarded can be computed when the condition can. -/
instance decidableGuarded [∀ s a, Decidable (G s a)] :
    ∀ (s : σ) (as : List α), Decidable (Guarded step G s as)
  | _, [] => .isTrue trivial
  | s, a :: as =>
    match h : step s a with
    | none => decidable_of_iff (G s a) ⟨fun hg => ⟨hg, by simp [h]⟩, And.left⟩
    | some s' =>
      have := decidableGuarded s' as
      decidable_of_iff (G s a ∧ Guarded step G s' as)
        ⟨fun hg => .cons hg.1 h hg.2, fun hg => ⟨hg.1, hg.2 s' h⟩⟩

/-- The invariant rule for a system all of whose steps preserve the invariant. -/
theorem run_invariant (hstep : ∀ s a s', I s → step s a = some s' → I s') {s s' : σ}
    {as : List α} (h0 : I s) (hr : run step s as = some s') : I s' :=
  (guarded_true s as).invariant (fun s a s' h _ hs => hstep s a s' h hs) h0 hr

end OCF
