import Mathlib.Data.List.Perm.Subperm
import Mathlib.Data.List.Nodup
import Mathlib.Algebra.Order.Group.Nat

/-!
# Fair rotation

One of `k` candidates is picked again and again. The rotation is fair when after `n` picks every
candidate has been picked at least `n / k` times. This is so exactly when every complete block of `k`
picks, counted from the first one, has every candidate once (`fairTo_iff`).
-/

namespace OCF

variable {α : Type*} {cands picks : List α}

/-- After any number of picks, every candidate has had its share. -/
def FairTo [DecidableEq α] (cands picks : List α) : Prop :=
  ∀ n ≤ picks.length, ∀ a ∈ cands, n / cands.length ≤ (picks.take n).count a

/-- The block of `k` picks with a number. -/
def pickBlock (k m : ℕ) (picks : List α) : List α := (picks.drop (m * k)).take k

theorem take_succ_mul (k m : ℕ) (picks : List α) :
    picks.take ((m + 1) * k) = picks.take (m * k) ++ pickBlock k m picks := by
  rw [Nat.succ_mul, List.take_add, pickBlock]

theorem pickBlock_map {β : Type*} (f : α → β) (k m : ℕ) (picks : List α) :
    pickBlock k m (picks.map f) = (pickBlock k m picks).map f := by
  simp [pickBlock]

/-- When everybody has been picked `m` times and nothing else has, these are `m` full rounds. -/
theorem perm_of_le_count [DecidableEq α] (hc : cands.Nodup) {l : List α} {m : ℕ}
    (hlen : l.length = m * cands.length) (hcount : ∀ a ∈ cands, m ≤ l.count a) :
    (List.replicate m cands).flatten.Perm l := by
  have hsub : (List.replicate m cands).flatten.Subperm l := by
    refine List.subperm_ext_iff.2 fun a ha => ?_
    obtain ⟨l', hl', ha⟩ := List.mem_flatten.1 ha
    have ha' : a ∈ cands := List.eq_of_mem_replicate hl' ▸ ha
    simpa [List.count_flatten, List.count_eq_one_of_mem hc ha'] using hcount a ha'
  refine hsub.perm_of_length_le ?_
  simp [hlen]

/-- A block without repetition has everybody once. -/
theorem perm_pickBlock (hp : ∀ a ∈ picks, a ∈ cands) {m : ℕ}
    (hm : (m + 1) * cands.length ≤ picks.length) (hnodup : (pickBlock cands.length m picks).Nodup) :
    (pickBlock cands.length m picks).Perm cands := by
  have hlen : (pickBlock cands.length m picks).length = cands.length := by
    rw [pickBlock, List.length_take, List.length_drop]
    rw [Nat.succ_mul] at hm
    omega
  have hsub : pickBlock cands.length m picks ⊆ cands := fun a ha =>
    hp a (List.mem_of_mem_drop (List.mem_of_mem_take ha))
  exact (List.subperm_of_subset hnodup hsub).perm_of_length_le hlen.ge

/-- **Fair rotation.** -/
theorem fairTo_iff [DecidableEq α] (hc : cands.Nodup) (hp : ∀ a ∈ picks, a ∈ cands) :
    FairTo cands picks ↔
      ∀ m, (m + 1) * cands.length ≤ picks.length → (pickBlock cands.length m picks).Nodup := by
  constructor
  · intro hfair m hm
    have hrounds : ∀ j, j * cands.length ≤ picks.length →
        (List.replicate j cands).flatten.Perm (picks.take (j * cands.length)) := by
      intro j hj
      refine perm_of_le_count hc (by simp [hj]) fun a ha => ?_
      have hpos : 0 < cands.length := List.length_pos_of_mem ha
      have hle := hfair (j * cands.length) hj a ha
      rwa [Nat.mul_div_cancel _ hpos] at hle
    -- the block is what the last of `m + 1` rounds adds to the `m` before it
    have hmle : m * cands.length ≤ picks.length := le_trans (Nat.mul_le_mul_right _ m.le_succ) hm
    have hall := hrounds (m + 1) hm
    rw [take_succ_mul, List.replicate_succ', List.flatten_append] at hall
    have hblock := (List.perm_append_left_iff _).1
      (hall.trans ((hrounds m hmle).symm.append_right _))
    simp only [List.flatten_cons, List.flatten_nil, List.append_nil] at hblock
    exact hblock.nodup_iff.1 hc
  · intro hblocks n hn a ha
    have hrounds : ∀ j, j * cands.length ≤ picks.length →
        j ≤ (picks.take (j * cands.length)).count a := by
      intro j
      induction j with
      | zero => simp
      | succ j ih =>
        intro hj
        have hperm := perm_pickBlock hp hj (hblocks j hj)
        have hle := ih (le_trans (Nat.mul_le_mul_right _ j.le_succ) hj)
        rw [take_succ_mul, List.count_append, hperm.count_eq, List.count_eq_one_of_mem hc ha]
        omega
    have hle : n / cands.length * cands.length ≤ n := Nat.div_mul_le_self n _
    exact (hrounds _ (hle.trans hn)).trans
      (List.Sublist.count_le a (List.take_sublist_take_left hle))

end OCF
