import OCF.Foundations.Run
import Mathlib.Data.Nat.Init

/-!
# Infinite traces and fairness

A trace of a step function is an infinite sequence of states. Each is followed by the state after
the action scheduled at that moment, or by itself when nothing is scheduled.

* `Trace.invariant` and `Trace.stable` carry what every scheduled step preserves to all moments, or
  to all later ones.
* `Fair` says that a party that stays ready acts at some point, and `Fair.eventually` is the progress
  rule: a goal is reached when the party whose turn it is is always ready, and every action of that
  party decreases a rank that no other action increases.
* `Trace.ofRun` extends a finite run by doing nothing.
-/

namespace OCF

variable {σ α ι : Type*} {step : σ → α → Option σ}

/-- An infinite trace. -/
structure Trace (step : σ → α → Option σ) where
  state : ℕ → σ
  sched : ℕ → Option α
  idle : ∀ n, sched n = none → state (n + 1) = state n
  next : ∀ n a, sched n = some a → step (state n) a = some (state (n + 1))

namespace Trace

variable {t : Trace step} {I : σ → Prop}

/-- What every scheduled step preserves from some moment on holds from then on. -/
theorem stable {n : ℕ} (h0 : I (t.state n))
    (hstep : ∀ m a, n ≤ m → I (t.state m) → t.sched m = some a → I (t.state (m + 1))) :
    ∀ m, n ≤ m → I (t.state m) := by
  intro m hm
  induction m, hm using Nat.le_induction with
  | base => exact h0
  | succ m hm ih =>
    cases ha : t.sched m with
    | none => rwa [t.idle m ha]
    | some a => exact hstep m a hm ih ha

/-- The invariant rule for traces. -/
theorem invariant (h0 : I (t.state 0))
    (hstep : ∀ m a, I (t.state m) → t.sched m = some a → I (t.state (m + 1))) (n : ℕ) :
    I (t.state n) :=
  stable h0 (fun m a _ => hstep m a) n n.zero_le

/-- The trace that takes a finite run and then does nothing. -/
def ofRun {s u : σ} {as : List α} (h : run step s as = some u) : Trace step where
  state n := (run step s (as.take n)).getD s
  sched n := as[n]?
  idle n hn := by
    have hlen : as.length ≤ n := List.getElem?_eq_none_iff.1 hn
    rw [List.take_of_length_le hlen, List.take_of_length_le (Nat.le_succ_of_le hlen)]
  next n a ha := by
    have hsucc : as.take (n + 1) = as.take n ++ [a] := by
      rw [List.take_add_one, ha, Option.toList_some]
    have hrun : run step s (as.take n ++ a :: as.drop (n + 1)) = some u := by
      obtain ⟨hn, rfl⟩ := List.getElem?_eq_some_iff.1 ha
      rw [List.getElem_cons_drop, List.take_append_drop, h]
    rw [run_append, Option.bind_eq_some_iff] at hrun
    obtain ⟨v, hv, hrun⟩ := hrun
    obtain ⟨w, hw, -⟩ := run_cons_eq_some.1 hrun
    rw [hsucc, run_append, hv, Option.getD_some, Option.bind_some, run_cons, hw]
    rfl

variable {s u : σ} {as : List α} (h : run step s as = some u)

theorem ofRun_of_length_le {n : ℕ} (hn : as.length ≤ n) : (ofRun h).state n = u := by
  change (run step s (as.take n)).getD s = u
  rw [List.take_of_length_le hn, h, Option.getD_some]

/-- What every step of the run meets, every step of the trace meets. -/
theorem ofRun_guarded {G : σ → α → Prop} (hg : Guarded step G s as) :
    ∀ n a, (ofRun h).sched n = some a → G ((ofRun h).state n) a := by
  intro n a ha
  have hrun : run step s (as.take n ++ as.drop n) = some u := by rw [List.take_append_drop, h]
  rw [run_append, Option.bind_eq_some_iff] at hrun
  obtain ⟨v, hv, -⟩ := hrun
  have hstate : (ofRun h).state n = v := by
    change (run step s (as.take n)).getD s = v
    rw [hv, Option.getD_some]
  rw [hstate]
  exact Guarded.iff_forall_take.1 hg n v a hv ha

end Trace

/-- Whoever stays ready acts at some point. -/
def Fair (t : Trace step) (ready : σ → ι → Prop) (acts : ι → α → Prop) : Prop :=
  ∀ i n, (∀ m, n ≤ m → ready (t.state m) i) → ∃ m, n ≤ m ∧ ∃ a, t.sched m = some a ∧ acts i a

namespace Fair

variable {t : Trace step} {ready : σ → ι → Prop} {acts : ι → α → Prop}

/-- When nobody is ready in the end, a run that then does nothing is fair. -/
theorem ofRun {s u : σ} {as : List α} (h : run step s as = some u) (hu : ∀ i, ¬ready u i) :
    Fair (.ofRun h) ready acts := by
  intro i n hready
  have hlast := hready (max n as.length) (Nat.le_max_left ..)
  rw [Trace.ofRun_of_length_le h (Nat.le_max_right ..)] at hlast
  exact absurd hlast (hu i)

/-- **The progress rule.** While the goal is ahead, the party whose turn it is is ready, and a step
reaches the goal, or decreases the rank, or keeps the rank and the turn and is not an action of
that party. -/
theorem eventually (hfair : Fair t ready acts) {W G : σ → Prop} (rank : σ → ℕ) (turn : σ → ι)
    (hready : ∀ m, W (t.state m) → ready (t.state m) (turn (t.state m)))
    (hstep : ∀ m a, W (t.state m) → t.sched m = some a → G (t.state (m + 1)) ∨
      (W (t.state (m + 1)) ∧ (rank (t.state (m + 1)) < rank (t.state m) ∨
        (rank (t.state (m + 1)) = rank (t.state m) ∧
          turn (t.state (m + 1)) = turn (t.state m) ∧ ¬acts (turn (t.state m)) a))))
    {n : ℕ} (h : W (t.state n)) : ∃ m, n ≤ m ∧ G (t.state m) := by
  -- induction on the rank: either it decreases, or the turn never passes on
  induction hr : rank (t.state n) using Nat.strong_induction_on generalizing n with
  | _ r ih =>
    by_contra hnever
    have hnot : ∀ m, n ≤ m → ¬G (t.state m) := fun m hm hG => hnever ⟨m, hm, hG⟩
    have hkeep : ∀ m, n ≤ m → W (t.state m) ∧ rank (t.state m) = r ∧
        turn (t.state m) = turn (t.state n) := by
      refine Trace.stable (I := fun s => W s ∧ rank s = r ∧ turn s = turn (t.state n))
        ⟨h, hr, rfl⟩ fun m a hm ⟨hW, hrm, htm⟩ ha => ?_
      obtain hG | ⟨hW', hlt | ⟨heq, hturn, -⟩⟩ := hstep m a hW ha
      · exact absurd hG (hnot _ (Nat.le_succ_of_le hm))
      · obtain ⟨k, hk, hG⟩ := ih _ (hrm ▸ hlt) hW' rfl
        exact absurd hG (hnot k (Nat.le_trans hm (Nat.le_of_succ_le hk)))
      · exact ⟨hW', heq.trans hrm, hturn.trans htm⟩
    obtain ⟨m, hm, a, ha, hact⟩ := hfair (turn (t.state n)) n fun m hm => by
      obtain ⟨hW, -, htm⟩ := hkeep m hm
      exact htm ▸ hready m hW
    obtain ⟨hW, hrm, htm⟩ := hkeep m hm
    obtain hG | ⟨-, hlt | ⟨-, -, hno⟩⟩ := hstep m a hW ha
    · exact hnot _ (Nat.le_succ_of_le hm) hG
    · have hsucc := (hkeep (m + 1) (Nat.le_succ_of_le hm)).2.1
      omega
    · exact hno (htm ▸ hact)

end Fair

end OCF
