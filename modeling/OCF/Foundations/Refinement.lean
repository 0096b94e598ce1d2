import Mathlib.Data.Nat.Notation
import Mathlib.Data.List.Basic

/-!
# Refinement of a component by its replies

A component executes operations one after the other and replies to each. A specification says which
replies it allows, and what it holds after each; it may leave a reply open.

* `Allows.unique`: a specification that determines every reply determines the replies of a run.
* `allows_replies`: a relation between the states of the component and those of the specification
  that every operation carries on makes all replies allowed ones.
-/

namespace OCF

variable {S A Op Reply : Type*}

/-- The replies of a component to a sequence of operations. -/
def replies (exec : S → Op → Reply × S) : S → List Op → List Reply
  | _, [] => []
  | s, op :: ops => (exec s op).1 :: replies exec (exec s op).2 ops

/-- The specification allows the replies to the operations. -/
inductive Allows (spec : A → Op → Reply → A → Prop) : A → List Op → List Reply → Prop
  | nil (a : A) : Allows spec a [] []
  | cons {a b : A} {op : Op} {r : Reply} {ops : List Op} {rs : List Reply} :
      spec a op r b → Allows spec b ops rs → Allows spec a (op :: ops) (r :: rs)

variable {spec : A → Op → Reply → A → Prop} {exec : S → Op → Reply × S}

/-- A specification that determines each reply determines them all. -/
theorem Allows.unique
    (hdet : ∀ a op r b r' b', spec a op r b → spec a op r' b' → r = r' ∧ b = b')
    {a : A} {ops : List Op} {rs rs' : List Reply} (h : Allows spec a ops rs)
    (h' : Allows spec a ops rs') : rs = rs' := by
  induction h generalizing rs' with
  | nil a =>
    cases h'
    rfl
  | cons hr _ ih =>
    cases h' with
    | cons hr' h' =>
      obtain ⟨rfl, rfl⟩ := hdet _ _ _ _ _ _ hr hr'
      rw [ih h']

/-- **Simulation**: when every operation that satisfies `P` carries the relation on and gives a reply
that is allowed, so does every sequence of them. -/
theorem allows_replies {R : S → A → Prop} {P : Op → Prop}
    (hstep : ∀ s a op, R s a → P op → ∃ b, spec a op (exec s op).1 b ∧ R (exec s op).2 b)
    {s : S} {a : A} (h : R s a) {ops : List Op} (hops : ∀ op ∈ ops, P op) :
    Allows spec a ops (replies exec s ops) := by
  induction ops generalizing s a with
  | nil => exact .nil a
  | cons op ops ih =>
    obtain ⟨b, hspec, hb⟩ := hstep s a op h (hops op (List.mem_cons_self ..))
    exact .cons hspec (ih hb fun o ho => hops o (List.mem_cons_of_mem _ ho))

end OCF
