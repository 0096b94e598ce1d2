import Mathlib.Data.List.Nodup

/-!
# Cryptokey routing

A WireGuard interface has addresses and a table that gives an allowed address to at most one peer.
Adding an address that the interface has already changes nothing. Setting the allowed addresses of a
peer takes away the ones it had and gives it the new ones, which whoever had them loses.

Nothing else removes an entry. `serves_setPeers_iff` says when setting the peers of a table one after
the other leaves exactly that table: when every address that was allowed before belonged to a peer of
the table or is given to one.
-/

namespace OCF

variable {κ α : Type*}

/-- An interface: its addresses and the peer of every allowed address. -/
structure Cryptokey (κ α : Type*) where
  addresses : List α
  allowed : α → Option κ

namespace Cryptokey

/-- An interface that was just created. -/
def empty : Cryptokey κ α := ⟨[], fun _ => none⟩

/-- Every peer stands in the table once, and so does every address. -/
structure Disjoint (table : List (κ × List α)) : Prop where
  keys : (table.map Prod.fst).Nodup
  addresses : ∀ e ∈ table, ∀ e' ∈ table, ∀ x ∈ e.2, x ∈ e'.2 → e = e'

theorem Disjoint.tail {e : κ × List α} {table : List (κ × List α)} (h : Disjoint (e :: table)) :
    Disjoint table where
  keys := (List.nodup_cons.1 h.keys).2
  addresses a ha b hb := h.addresses a (List.mem_cons_of_mem e ha) b (List.mem_cons_of_mem e hb)

/-- The allowed addresses are those of the table. -/
def Serves (d : Cryptokey κ α) (table : List (κ × List α)) : Prop :=
  ∀ k x, d.allowed x = some k ↔ ∃ e ∈ table, e.1 = k ∧ x ∈ e.2

variable [DecidableEq α]

/-- `ip addr add`. -/
def addAddress (d : Cryptokey κ α) (a : α) : Cryptokey κ α :=
  if a ∈ d.addresses then d else { d with addresses := d.addresses ++ [a] }

theorem addAddress_allowed (d : Cryptokey κ α) (a : α) : (d.addAddress a).allowed = d.allowed := by
  unfold addAddress
  split_ifs <;> rfl

variable [DecidableEq κ]

/-- `wg set` of a peer's allowed addresses. -/
def setPeer (d : Cryptokey κ α) (e : κ × List α) : Cryptokey κ α :=
  { d with allowed := fun x =>
      if x ∈ e.2 then some e.1 else if d.allowed x = some e.1 then none else d.allowed x }

/-- Set the peers of a table in order. -/
def setPeers (d : Cryptokey κ α) (table : List (κ × List α)) : Cryptokey κ α :=
  table.foldl setPeer d

variable {d : Cryptokey κ α} {table : List (κ × List α)}

@[simp] theorem setPeers_nil : d.setPeers [] = d := rfl

theorem setPeers_cons (e : κ × List α) : d.setPeers (e :: table) = (d.setPeer e).setPeers table := rfl

theorem setPeers_addresses : (d.setPeers table).addresses = d.addresses := by
  induction table generalizing d with
  | nil => rfl
  | cons e table ih => exact ih

/-- An address of the table is allowed to its peer. -/
theorem allowed_setPeers_of_mem (h : Disjoint table) {e : κ × List α} (he : e ∈ table) {x : α}
    (hx : x ∈ e.2) : (d.setPeers table).allowed x = some e.1 := by
  induction table generalizing d with
  | nil => cases he
  | cons e' table ih =>
    rw [setPeers_cons]
    by_cases hmem : ∃ e'' ∈ table, x ∈ e''.2
    · obtain ⟨e'', he'', hx''⟩ := hmem
      obtain rfl := h.addresses e he e'' (List.mem_cons_of_mem e' he'') x hx hx''
      exact ih h.tail he''
    · -- nobody later in the table touches the address
      have hrest : ∀ (table : List (κ × List α)) (d : Cryptokey κ α),
          e.1 ∉ table.map Prod.fst → (∀ e'' ∈ table, x ∉ e''.2) → d.allowed x = some e.1 →
          (d.setPeers table).allowed x = some e.1 := by
        intro table
        induction table with
        | nil => exact fun d _ _ hd => hd
        | cons e'' table ih =>
          intro d hkey hnone hd
          rw [List.map_cons, List.mem_cons, not_or] at hkey
          refine ih _ hkey.2 (fun a ha => hnone a (List.mem_cons_of_mem e'' ha)) ?_
          simp only [setPeer, if_neg (hnone e'' List.mem_cons_self), hd, Option.some_inj,
            if_neg hkey.1]
      have heq : e = e' := (List.mem_cons.1 he).resolve_right fun hin => hmem ⟨e, hin, hx⟩
      subst heq
      refine hrest table _ (List.nodup_cons.1 h.keys).1 (fun a ha hxa => hmem ⟨a, ha, hxa⟩) ?_
      simp only [setPeer, if_pos hx]

/-- An address that is not in the table is left to its peer, unless the table has that peer. -/
theorem allowed_setPeers_of_notMem {x : α} (hx : ∀ e ∈ table, x ∉ e.2) {k : κ} :
    (d.setPeers table).allowed x = some k ↔ d.allowed x = some k ∧ ∀ e ∈ table, e.1 ≠ k := by
  induction table generalizing d with
  | nil => simp
  | cons e table ih =>
    have hset : (d.setPeer e).allowed x = some k ↔ d.allowed x = some k ∧ e.1 ≠ k := by
      simp only [setPeer, if_neg (hx e List.mem_cons_self)]
      split_ifs with hold
      · simp [hold]
      · exact ⟨fun h => ⟨h, fun hk => hold (hk ▸ h)⟩, And.left⟩
    rw [setPeers_cons, ih fun a ha => hx a (List.mem_cons_of_mem e ha), hset, List.forall_mem_cons,
      and_assoc]

/-- **When setting the peers leaves exactly the table.** -/
theorem serves_setPeers_iff (h : Disjoint table) :
    (d.setPeers table).Serves table ↔
      ∀ k x, d.allowed x = some k → (∃ e ∈ table, x ∈ e.2) ∨ ∃ e ∈ table, e.1 = k := by
  constructor
  · intro hserves k x hold
    by_contra hnone
    push Not at hnone
    obtain ⟨e, he, -, hx⟩ := (hserves k x).1
      ((allowed_setPeers_of_notMem hnone.1).2 ⟨hold, hnone.2⟩)
    exact hnone.1 e he hx
  · intro hcond k x
    by_cases hmem : ∃ e ∈ table, x ∈ e.2
    · obtain ⟨e, he, hx⟩ := hmem
      rw [allowed_setPeers_of_mem h he hx, Option.some_inj]
      refine ⟨fun hk => ⟨e, he, hk, hx⟩, ?_⟩
      rintro ⟨e', he', hk, hx'⟩
      rw [h.addresses e he e' he' x hx hx', hk]
    · rw [allowed_setPeers_of_notMem fun e he hx => hmem ⟨e, he, hx⟩]
      constructor
      · rintro ⟨hold, hkey⟩
        obtain ⟨e, he, hk⟩ := (hcond k x hold).resolve_left hmem
        exact absurd hk (hkey e he)
      · rintro ⟨e, he, -, hx⟩
        exact absurd ⟨e, he, hx⟩ hmem

end Cryptokey

end OCF
