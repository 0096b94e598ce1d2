import OCF.Foundations.LabelSearch
import OCF.Foundations.Lists

/-!
# Which of the best walks a search finds

There can be several walks of least label. A search keeps the predecessor that offered a node its label
first, and nodes are finished in the order of their labels, so among the nodes that a node can be
reached from with its least label the predecessor is one of least label itself. Only between equals
does the order in which the nodes are listed decide.

`Preferred` says this without the search: a walk each of whose nodes comes after a nearest one of those
it can come after, and not after an earlier node of the walk. `Timed` is what the search keeps: when
each node was finished, and what follows for labels and predecessors.

For labels that grow (`Growing`):

* `preferred_of_path`: a path that is found is preferred.
* `exists_order_of_preferred`: every preferred walk is found in some order of the nodes.
* `path_eq_direct_iff`: the single hop to the target is found exactly when its label is least.
-/

namespace OCF.LabelSearch

variable {V W L : Type*}

/-! ## Preferred walks -/

section Definitions

variable [LinearOrder L] (S : LabelSearch V W L) (start : L) (src : V)

/-- The least label of a walk from the source to the node. -/
def Least (v : V) (c : L) : Prop :=
  (∃ hops, S.Walk start src v hops c) ∧ ∀ hops c', S.Walk start src v hops c' → c ≤ c'

/-- The edge continues walks of least label to `u` to walks of least label to `v`. -/
def Tight (u v : V) : Prop :=
  ∃ c w, S.Least start src u c ∧ S.edge u v = some w ∧ S.Least start src v (S.add c w)

/-- Each node of the walk follows one of least label among the nodes from which it has its own least
label, and none of these comes earlier on the walk. -/
inductive Preferred : V → List V → Prop
  | nil : Preferred src []
  | concat {u v : V} {hops : List V} : Preferred u hops → v ∉ src :: hops →
      S.Tight start src u v → (∀ x, S.Tight start src x v →
        (∀ c d, S.Least start src u c → S.Least start src x d → c ≤ d) ∧ (x ∈ src :: hops → x = u)) →
      Preferred v (hops ++ [v])

end Definitions

section Walks

variable [LinearOrder L] {S : LabelSearch V W L} {start : L} {src v : V} {hops : List V} {c d : L}

theorem Least.unique (h : S.Least start src v c) (h' : S.Least start src v d) : c = d := by
  obtain ⟨⟨hops, hw⟩, hmin⟩ := h
  obtain ⟨⟨hops', hw'⟩, hmin'⟩ := h'
  exact le_antisymm (hmin hops' d hw') (hmin' hops c hw)

/-- The source itself has the label it starts with. -/
theorem Growing.least_source {top : L} (hS : S.Growing top start) : S.Least start src src start :=
  ⟨⟨[], .nil⟩, fun _ _ hw => hS.start_le_walk hw⟩

namespace Preferred

theorem mem (h : S.Preferred start src v hops) : v ∈ src :: hops := by
  cases h with
  | nil => exact List.mem_cons_self ..
  | concat _ _ _ _ => simp

theorem nodup (h : S.Preferred start src v hops) : (src :: hops).Nodup := by
  induction h with
  | nil => exact List.nodup_singleton src
  | concat _ hv _ _ ih =>
    rw [← List.cons_append, List.nodup_append]
    refine ⟨ih, List.nodup_singleton _, fun a ha b hb hab => ?_⟩
    rw [List.mem_singleton.1 hb] at hab
    exact hv (hab ▸ ha)

/-- The label of a preferred walk is least. -/
theorem exists_walk {top : L} (hS : S.Growing top start) (h : S.Preferred start src v hops) :
    ∃ c, S.Walk start src v hops c ∧ S.Least start src v c := by
  induction h with
  | nil => exact ⟨start, .nil, hS.least_source⟩
  | @concat u v hops _ _ htight _ ih =>
    obtain ⟨c, hc, hleast⟩ := ih
    obtain ⟨c', w, hleast', he, hv⟩ := htight
    obtain rfl := hleast.unique hleast'
    obtain ⟨⟨_, hw⟩, -⟩ := id hv
    exact ⟨S.add c w, hc.concat he (hw.infinite_eq_false hS.start_finite), hv⟩

/-- Each hop of a preferred walk is the target of an edge. -/
theorem exists_edge_of_mem (h : S.Preferred start src v hops) {x : V} (hx : x ∈ hops) :
    ∃ u w, S.edge u x = some w := by
  induction h with
  | nil => simp at hx
  | @concat u v hops _ _ htight _ ih =>
    obtain hx | hx := List.mem_append.1 hx
    · exact ih hx
    · obtain rfl := List.mem_singleton.1 hx
      obtain ⟨-, w, -, he, -⟩ := htight
      exact ⟨u, w, he⟩

end Preferred

end Walks

/-! ## The order in which nodes are finished -/

variable [DecidableEq V] [LinearOrder L]

/-- The node that is finished next comes first in the order of those with a label as small. -/
theorem idxOf_next_le {order : List V} {l : SearchLabels V L} {u y : V} (hn : l.next order = some u)
    (hy : y ∈ order) (hyd : l.done y = false) (hle : l.dist y ≤ l.dist u) :
    order.idxOf u ≤ order.idxOf y := by
  refine idxOf_le_of_filter (p := fun n => !l.done n) (by simp [hyd]) ?_
  exact List.index_of_argmin hn (List.mem_filter.2 ⟨hy, by simp [hyd]⟩) hle

omit [LinearOrder L] in
/-- The source is finished before any other node has a finite label. -/
theorem Ok.eq_or_source_done {S : LabelSearch V W L} {start : L} {src u : V} {l : SearchLabels V L}
    (h : S.Ok start src l) (hu : S.infinite (l.dist u) = false) : src = u ∨ l.done src := by
  obtain ⟨hops, hl⟩ := h.labelled u hu
  by_cases hsu : src = u
  · exact .inl hsu
  · exact .inr (hl.interior src (List.mem_cons_self ..) hsu)

/-- When each node was finished, with `k` rounds done. -/
structure Timed (S : LabelSearch V W L) (order : List V) (src : V) (time : V → ℕ) (k : ℕ)
    (l : SearchLabels V L) : Prop where
  bound : ∀ x, l.done x → time x < k
  inj : ∀ x y, l.done x → l.done y → time x = time y → x = y
  source : ∀ x, l.done x → time src ≤ time x
  mono : ∀ x y, l.done x → l.done y → time x ≤ time y → l.dist x ≤ l.dist y
  frontier : ∀ x, l.done x → ∀ y ∈ order, l.done y = false → l.dist x ≤ l.dist y
  /-- A predecessor is finished, and it was the first to offer the label. -/
  pred : ∀ v u, l.prev.lookup v = some u → l.done u ∧ (l.done v → time u < time v) ∧
    (∃ w, S.edge u v = some w ∧ l.dist v = S.add (l.dist u) w) ∧
    ∀ x w, l.done x → time x < time u → S.edge x v = some w → l.dist v < S.add (l.dist x) w
  /-- A node was not finished before one that had a label as small already, unless it comes first in
  the order. -/
  choice : ∀ u y p, l.done u → y ∈ order → l.prev.lookup y = some p → time p < time u →
    (l.done y → time u < time y) → l.dist y ≤ l.dist u → order.idxOf u ≤ order.idxOf y

/-- No edge out of a finished node other than the target offers an unfinished one a better label. -/
def RelaxedBut (S : LabelSearch V W L) (dst : V) (l : SearchLabels V L) : Prop :=
  ∀ u v w, l.done u → u ≠ dst → l.done v = false → S.edge u v = some w → l.dist v ≤ S.add (l.dist u) w

theorem Relaxed.finish {S : LabelSearch V W L} {l : SearchLabels V L} (h : S.Relaxed l) (u : V) :
    S.RelaxedBut u (l.finish u) := fun x v w hx hxu hv he =>
  h x v w ((finish_done.1 hx).resolve_left hxu) (finish_done_eq_false.1 hv).2 he

namespace Timed

variable {S : LabelSearch V W L} {top start : L} {order : List V} {src u : V} {time : V → ℕ} {k : ℕ}
  {l : SearchLabels V L}

theorem init (S : LabelSearch V W L) (top start : L) (order : List V) (src : V) (time : V → ℕ) :
    S.Timed order src time 0 (.init top start src) := by
  have hdone : ∀ x, ¬(SearchLabels.init top start src).done x := fun x h => Bool.false_ne_true h
  exact ⟨fun x hx => absurd hx (hdone x), fun x _ hx => absurd hx (hdone x),
    fun x hx => absurd hx (hdone x), fun x _ hx => absurd hx (hdone x),
    fun x hx => absurd hx (hdone x), fun v u h => by simp [SearchLabels.init] at h,
    fun u _ _ hu => absurd hu (hdone u)⟩

omit [LinearOrder L] in
/-- A node that is finished keeps its time. -/
theorem update_time_of_done {x : V} (hu : l.done u = false) (hx : l.done x) :
    Function.update time u k x = time x := by
  refine Function.update_of_ne ?_ ..
  rintro rfl
  exact Bool.eq_false_iff.1 hu hx

/-- A node is finished in this round, or it was before. -/
theorem finish_cases (h : S.Timed order src time k l) (hu : l.done u = false) {x : V}
    (hx : (l.finish u).done x) :
    x = u ∧ Function.update time u k x = k ∨
      l.done x ∧ Function.update time u k x = time x ∧ time x < k := by
  obtain rfl | hx := finish_done.1 hx
  · exact .inl ⟨rfl, Function.update_self ..⟩
  · exact .inr ⟨hx, update_time_of_done hu hx, h.bound x hx⟩

/-- The next node is finished. -/
theorem finish (h : S.Timed order src time k l) (hok : S.Ok start src l)
    (hn : l.next order = some u) (hu : S.infinite (l.dist u) = false) :
    S.Timed order src (Function.update time u k) (k + 1) (l.finish u) := by
  obtain ⟨huo, hud, hmin⟩ := next_eq_some hn
  have hdone : ∀ x, l.done x → (l.finish u).done x := fun x hx => finish_done.2 (.inr hx)
  have hold : ∀ x, l.done x → Function.update time u k x = time x := fun x hx =>
    update_time_of_done hud hx
  refine ⟨fun x hx => ?_, fun x y hx hy heq => ?_, fun x hx => ?_, fun x y hx hy hle => ?_,
    fun x hx y hy hyd => ?_, fun v p hp => ?_, fun a y p ha hy hp hpa hya hle => ?_⟩
  · obtain ⟨-, hx⟩ | ⟨-, hx, hlt⟩ := h.finish_cases hud hx <;> omega
  · obtain ⟨rfl, hx⟩ | ⟨hxd, hx, hxk⟩ := h.finish_cases hud hx <;>
      obtain ⟨rfl, hy⟩ | ⟨hyd, hy, hyk⟩ := h.finish_cases hud hy
    · rfl
    · omega
    · omega
    · exact h.inj x y hxd hyd (by omega)
  · obtain rfl | hsd := hok.eq_or_source_done hu
    · obtain ⟨rfl, -⟩ | ⟨hxd, -, -⟩ := h.finish_cases hud hx
      · exact le_rfl
      · exact absurd (hok.source_done hxd) (Bool.eq_false_iff.1 hud)
    · rw [hold src hsd]
      obtain ⟨-, hx⟩ | ⟨hxd, hx, -⟩ := h.finish_cases hud hx
      · rw [hx]
        exact (h.bound src hsd).le
      · rw [hx]
        exact h.source x hxd
  · obtain ⟨rfl, hx⟩ | ⟨hxd, hx, hxk⟩ := h.finish_cases hud hx <;>
      obtain ⟨rfl, hy⟩ | ⟨hyd, hy, hyk⟩ := h.finish_cases hud hy
    · exact le_rfl
    · omega
    · exact h.frontier x hxd y huo hud
    · exact h.mono x y hxd hyd (by omega)
  · obtain rfl | hx := finish_done.1 hx
    · exact hmin y hy (finish_done_eq_false.1 hyd).2
    · exact h.frontier x hx y hy (finish_done_eq_false.1 hyd).2
  · obtain ⟨hpd, hpv, hw, hfirst⟩ := h.pred v p hp
    have hpk := h.bound p hpd
    rw [hold p hpd]
    refine ⟨hdone p hpd, fun hv => ?_, hw, fun x w hx hlt => ?_⟩
    · obtain ⟨-, hv⟩ | ⟨hvd, hv, -⟩ := h.finish_cases hud hv
      · omega
      · exact hv ▸ hpv hvd
    · obtain ⟨-, hx⟩ | ⟨hxd, hx, -⟩ := h.finish_cases hud hx
      · omega
      · exact hfirst x w hxd (hx ▸ hlt)
  · rw [hold p (h.pred y p hp).1] at hpa
    -- among the unfinished nodes the one that is finished now comes first
    obtain ⟨rfl, ha⟩ | ⟨had, ha, -⟩ := h.finish_cases hud ha
    · refine idxOf_next_le hn hy (Bool.eq_false_iff.2 fun hyd => ?_) hle
      have hlt := hya (hdone y hyd)
      have hyk := h.bound y hyd
      rw [ha, hold y hyd] at hlt
      omega
    · rw [ha] at hpa hya
      refine h.choice a y p had hy hp hpa (fun hyd => ?_) hle
      exact hold y hyd ▸ hya (hdone y hyd)

/-- No node is finished after the one that was finished in the last round. -/
theorem le_last {x : V} (h : S.Timed order src (Function.update time u k) (k + 1) l) (hx : l.done x) :
    Function.update time u k x ≤ Function.update time u k u := by
  rw [Function.update_self]
  exact Nat.lt_succ_iff.1 (h.bound x hx)

/-- An edge of the node finished last is relaxed. -/
theorem relax (h : S.Timed order src time k l) (hS : S.Growing top start) (hok : S.Ok start src l)
    (hu : l.done u) (hlast : ∀ x, l.done x → time x ≤ time u)
    (hrel : ∀ x v w, l.done x → time x < time u → l.done v = false → S.edge x v = some w →
      l.dist v ≤ S.add (l.dist x) w) (v : V) : S.Timed order src time k (S.relax u l v) := by
  obtain ⟨he, -⟩ | ⟨w, hvd, hcost, hlt, he⟩ := relax_cases S u l v
  · rwa [he]
  have hne : ∀ x, l.done x → x ≠ v := by
    rintro x hx rfl
    exact Bool.false_ne_true (hvd.symm.trans hx)
  have hold : ∀ x, l.done x → (l.improve v u (S.add (l.dist u) w)).dist x = l.dist x :=
    fun x hx => by rw [improve_dist, if_neg (hne x hx)]
  have hprev : ∀ y, (l.improve v u (S.add (l.dist u) w)).prev.lookup y =
      if y = v then some u else l.prev.lookup y := fun y => HashMap.lookup_insert_eq ..
  rw [he]
  refine ⟨h.bound, h.inj, h.source, fun x y hx hy hle => ?_, fun x hx y hy hyd => ?_,
    fun y p hp => ?_, fun a y p ha hy hp hpa hya hle => ?_⟩
  · rw [hold x hx, hold y hy]
    exact h.mono x y hx hy hle
  · rw [hold x hx, improve_dist]
    split_ifs
    · obtain ⟨hops, hl, -⟩ := hok.exists_labelled hu
      exact (h.mono x u hx hu (hlast x hx)).trans (hS.grow src u v w hops _ hl.walk hcost)
    · exact h.frontier x hx y hy hyd
  · rw [hprev] at hp
    split_ifs at hp with hyv
    · obtain rfl := Option.some.inj hp
      obtain rfl := hyv
      have hnew : (l.improve y u (S.add (l.dist u) w)).dist y = S.add (l.dist u) w := by
        rw [improve_dist, if_pos rfl]
      refine ⟨hu, fun hd => absurd hd (Bool.eq_false_iff.1 hvd), ⟨w, hcost, ?_⟩, fun x c hx hxu hc => ?_⟩
      · rw [hnew, hold u hu]
      · rw [hnew, hold x hx]
        exact hlt.trans_le (hrel x y c hx hxu hvd hc)
    · have hsame : (l.improve v u (S.add (l.dist u) w)).dist y = l.dist y := by
        rw [improve_dist, if_neg hyv]
      obtain ⟨hpd, hpv, ⟨c, hc, hdist⟩, hfirst⟩ := h.pred y p hp
      refine ⟨hpd, hpv, ⟨c, hc, ?_⟩, fun x c hx hxp hc => ?_⟩
      · rw [hsame, hold p hpd, hdist]
      · rw [hsame, hold x hx]
        exact hfirst x c hx hxp hc
  · rw [hprev] at hp
    split_ifs at hp with hyv
    · obtain rfl := Option.some.inj hp
      exact absurd (hlast a ha) (not_le.2 hpa)
    · rw [hold a ha, improve_dist, if_neg hyv] at hle
      exact h.choice a y p ha hy hp hpa hya hle

/-- All edges of the node finished last are relaxed. -/
theorem foldl_relax (h : S.Timed order src time k l) (hS : S.Growing top start)
    (hok : S.Ok start src l) (hu : l.done u) (hlast : ∀ x, l.done x → time x ≤ time u)
    (hrel : ∀ x v w, l.done x → time x < time u → l.done v = false → S.edge x v = some w →
      l.dist v ≤ S.add (l.dist x) w) (vs : List V) :
    S.Timed order src time k (vs.foldl (S.relax u) l) := by
  induction vs generalizing l with
  | nil => exact h
  | cons v vs ih =>
    refine ih (h.relax hS hok hu hlast hrel v) (hok.relax hu v) (by rwa [relax_done])
      (fun x hx => ?_) fun x y w hx hxu hy hc => ?_
    · rw [relax_done] at hx
      exact hlast x hx
    · rw [relax_done] at hx hy
      rw [relax_dist_of_done hx]
      exact relax_dist_le.trans (hrel x y w hx hxu hy hc)

/-- **The loop.** The target, once finished, is the last. -/
theorem search {dst : V} (hS : S.Growing top start)
    (hmem : ∀ a b w, S.edge a b = some w → b ∈ order) (fuel : ℕ)
    (h : S.Timed order src time k l) (hok : S.Ok start src l) (hr : S.Relaxed l)
    (hdst : l.done dst = false) :
    ∃ time' k', S.Timed order src time' k' (S.search order dst fuel l) ∧
      (∀ x, (S.search order dst fuel l).done x → (S.search order dst fuel l).done dst →
        time' x ≤ time' dst) ∧
      S.RelaxedBut dst (S.search order dst fuel l) := by
  -- where the loop stops early, nothing changes and the target is not finished
  have hstop : ∀ {time k l}, S.Timed order src time k l → S.Relaxed l → l.done dst = false →
      ∃ time' k', S.Timed order src time' k' l ∧
        (∀ x, l.done x → l.done dst → time' x ≤ time' dst) ∧ S.RelaxedBut dst l :=
    fun h hr hdst => ⟨_, _, h, fun x _ hd => absurd hd (Bool.eq_false_iff.1 hdst),
      fun u v w hu _ => hr u v w hu⟩
  induction fuel generalizing time k l with
  | zero => exact hstop h hr hdst
  | succ fuel ih =>
    rw [LabelSearch.search]
    cases hn : l.next order with
    | none => exact hstop h hr hdst
    | some u =>
      dsimp only
      split_ifs with hinf hud
      · exact hstop h hr hdst
      · obtain rfl := hud
        have hfin := h.finish hok hn (by simpa using hinf)
        exact ⟨_, _, hfin, fun x hx _ => hfin.le_last hx, hr.finish u⟩
      · have hfinite : S.infinite (l.dist u) = false := by simpa using hinf
        have hfin := h.finish hok hn hfinite
        have hdone : (l.finish u).done u := finish_done.2 (.inl rfl)
        refine ih (hfin.foldl_relax hS (hok.finish hfinite) hdone (fun x => hfin.le_last)
          (fun x v w hx hxu => ?_) order) (hok.round hfinite) (relaxed_round hmem hr) ?_
        · have hne : x ≠ u := by
            rintro rfl
            exact lt_irrefl _ hxu
          exact hr.finish u x v w hx hne
        · rw [foldl_relax_done]
          exact finish_done_eq_false.2 ⟨Ne.symm hud, hdst⟩

end Timed

/-! ## What the search ends with -/

omit [LinearOrder L] in
theorem Traces.unique {prev : HashMap V V} {src v : V} {hops hops' : List V}
    (h : Traces prev src v hops) (h' : Traces prev src v hops') : hops = hops' := by
  induction h generalizing hops' with
  | nil =>
    cases h' with
    | nil => rfl
    | concat _ hne _ => exact absurd rfl hne
  | @concat u v hops _ hne hp ih =>
    cases h' with
    | nil => exact absurd rfl hne
    | @concat u' _ hops' ht _ hp' =>
      obtain rfl := Option.some.inj (hp.symm.trans hp')
      rw [ih ht]

/-- The labels after a search that reached its target. -/
structure Finished (S : LabelSearch V W L) (start : L) (order : List V) (src dst : V) (time : V → ℕ)
    (l : SearchLabels V L) : Prop where
  timed : ∃ k, S.Timed order src time k l
  ok : S.Ok start src l
  settled : S.Settled start src l
  low : ∀ x, start ≤ l.dist x
  relaxed : S.RelaxedBut dst l
  target : l.done dst
  last : ∀ x, l.done x → time x ≤ time dst

namespace Finished

variable {S : LabelSearch V W L} {top start : L} {order : List V} {src dst u v : V} {time : V → ℕ}
  {l : SearchLabels V L} {hops tail rest : List V} {c : L} {w : W}

/-- The label of a finished node is its least one. -/
theorem least (h : S.Finished start order src dst time l) (hv : l.done v) :
    S.Least start src v (l.dist v) := by
  obtain ⟨hops, hl⟩ := h.ok.labelled v (h.ok.finite v hv)
  exact ⟨⟨hops, hl.walk⟩, fun hops' c hw => h.settled v hops' c hv hw⟩

theorem dist_eq (h : S.Finished start order src dst time l) (hv : l.done v)
    (hc : S.Least start src v c) : l.dist v = c :=
  (h.least hv).unique hc

/-- No node is nearer than the finished ones. -/
theorem le_of_walk (h : S.Finished start order src dst time l) (hS : S.Growing top start)
    (hmem : ∀ a b w, S.edge a b = some w → b ∈ order) (hsrc : src ∈ order) (hu : l.done u)
    (hv : l.done v = false) (hwalk : S.Walk start src v hops c) : l.dist u ≤ c := by
  obtain ⟨k, ht⟩ := h.timed
  have hsd : l.dist src ≤ start := h.settled src [] start (h.ok.source_done h.target) .nil
  -- the target is left out: its edges were not relaxed
  obtain ⟨y, hyo, hy, hle⟩ := hS.exists_frontier (l := l) hmem hsrc
    (P := fun x => l.done x ∧ x ≠ dst) (fun _ => hsd)
    (fun a b w hops c ha hb hw he hfinite => by
      by_cases hbd : l.done b
      · exact h.settled b _ _ hbd (hw.concat he hfinite)
      · exact (h.relaxed a b w ha.1 ha.2 (Bool.eq_false_iff.2 hbd) he).trans
          (hS.mono _ _ w (h.settled a hops c ha.1 hw)))
    hwalk fun hd => Bool.eq_false_iff.1 hv hd.1
  by_cases hyd : l.done y
  · obtain rfl : y = dst := by
      by_contra hne
      exact hy ⟨hyd, hne⟩
    exact (ht.mono u y hu h.target (h.last u hu)).trans hle
  · exact (ht.frontier u hu y hyo (Bool.eq_false_iff.2 hyd)).trans hle

/-- **What is traced back is preferred.** -/
theorem preferred_of_traces (h : S.Finished start order src dst time l) (hS : S.Growing top start)
    (hmem : ∀ a b w, S.edge a b = some w → b ∈ order) (hsrc : src ∈ order)
    (ht : Traces l.prev src v hops) (hv : l.done v) :
    S.Preferred start src v hops ∧ ∀ x ∈ src :: hops, l.done x ∧ time x ≤ time v := by
  obtain ⟨k, htimed⟩ := h.timed
  induction ht with
  | nil =>
    refine ⟨.nil, fun x hx => ?_⟩
    obtain rfl := List.mem_singleton.1 hx
    exact ⟨hv, le_rfl⟩
  | @concat u v hops _ _ hp ih =>
    obtain ⟨hud, huv, ⟨w, hcost, hdist⟩, hfirst⟩ := htimed.pred v u hp
    obtain ⟨hpref, hbefore⟩ := ih hud
    have hlt := huv hv
    have hcv : S.Least start src v (S.add (l.dist u) w) := hdist ▸ h.least hv
    have hnotFirst : ∀ x, S.Tight start src x v → l.done x → time u ≤ time x := by
      rintro x ⟨c, w', hcx, hx, hcv'⟩ hxd
      by_contra hxu
      have hstrict := hfirst x w' hxd (not_le.1 hxu) hx
      rw [h.dist_eq hv hcv', h.dist_eq hxd hcx] at hstrict
      exact lt_irrefl _ hstrict
    refine ⟨hpref.concat (fun hmem' => ?_) ⟨_, w, h.least hud, hcost, hcv⟩
      fun x hx => ⟨?_, fun hxs => ?_⟩, fun x hx => ?_⟩
    · exact absurd (hbefore v hmem').2 (not_le.2 hlt)
    · intro c e hc he
      rw [← h.dist_eq hud hc]
      by_cases hxd : l.done x
      · rw [← h.dist_eq hxd he]
        exact htimed.mono u x hud hxd (hnotFirst x hx hxd)
      · obtain ⟨hops', hw'⟩ := he.1
        exact h.le_of_walk hS hmem hsrc hud (Bool.eq_false_iff.2 hxd) hw'
    · obtain ⟨hxd, hxu⟩ := hbefore x hxs
      exact htimed.inj x u hxd hud (le_antisymm hxu (hnotFirst x hx hxd))
    · rw [← List.cons_append, List.mem_append, List.mem_singleton] at hx
      obtain hx | rfl := hx
      · exact ⟨(hbefore x hx).1, (hbefore x hx).2.trans hlt.le⟩
      · exact ⟨hv, le_rfl⟩

/-- A node to which a finished one continues with the least label has that label, finished or not. -/
theorem dist_eq_of_edge (h : S.Finished start order src dst time l) (hS : S.Growing top start)
    (hu : l.done u) (hne : u ≠ dst) (hcost : S.edge u v = some w)
    (hcv : S.Least start src v (S.add (l.dist u) w)) : l.dist v = S.add (l.dist u) w := by
  by_cases hvd : l.done v
  · exact h.dist_eq hvd hcv
  have hle := h.relaxed u v w hu hne (Bool.eq_false_iff.2 hvd) hcost
  obtain ⟨⟨hops, hw⟩, hmin⟩ := hcv
  obtain ⟨hops', hl⟩ := h.ok.labelled v
    (hS.finite_of_le (h.low v) hle (hw.infinite_eq_false hS.start_finite))
  exact le_antisymm hle (hmin hops' _ hl.walk)

/-- The predecessor of a node to which a finished one continues with the least label: it does so too,
and was not finished later. -/
theorem exists_prev (h : S.Finished start order src dst time l) (hS : S.Growing top start)
    (hu : l.done u) (hcost : S.edge u v = some w) (hcv : S.Least start src v (S.add (l.dist u) w))
    (hdv : l.dist v = S.add (l.dist u) w) (hvs : v ≠ src) :
    ∃ p, l.prev.lookup v = some p ∧ l.done p ∧ S.Tight start src p v ∧ time p ≤ time u := by
  obtain ⟨k, ht⟩ := h.timed
  obtain ⟨⟨_, hw⟩, -⟩ := id hcv
  obtain ⟨hops', hl⟩ := h.ok.labelled v (hdv ▸ hw.infinite_eq_false hS.start_finite)
  obtain ⟨p, hp⟩ : ∃ p, l.prev.lookup v = some p := by
    cases hl.traces with
    | nil => exact absurd rfl hvs
    | concat _ _ hp => exact ⟨_, hp⟩
  obtain ⟨hpd, -, ⟨w', hcost', hdist⟩, hfirst⟩ := ht.pred v p hp
  refine ⟨p, hp, hpd, ⟨_, w', h.least hpd, hcost', ?_⟩, ?_⟩
  · rwa [← hdist, hdv]
  · by_contra hlt
    have hstrict := hfirst u w hu (not_le.1 hlt) hcost
    rw [hdv] at hstrict
    exact lt_irrefl _ hstrict

/-- The preferred predecessor is the one recorded: of the others that continue there with the least
label, none was finished before it. -/
theorem lookup_prev_of_best (h : S.Finished start order src dst time l) (hS : S.Growing top start)
    (hu : l.done u) (hcost : S.edge u v = some w) (hcv : S.Least start src v (S.add (l.dist u) w))
    (hdv : l.dist v = S.add (l.dist u) w) (hvs : v ≠ src)
    (hbest : ∀ p, S.Tight start src p v →
      (∀ c e, S.Least start src u c → S.Least start src p e → c ≤ e) ∧ (p ∈ src :: hops → p = u))
    (hnearer : ∀ x, l.done x → x ∉ src :: hops → time x < time u → l.dist x < l.dist u) :
    l.prev.lookup v = some u := by
  obtain ⟨k, ht⟩ := h.timed
  obtain ⟨p, hp, hpd, htp, hle⟩ := h.exists_prev hS hu hcost hcv hdv hvs
  obtain ⟨hmin, hon⟩ := hbest p htp
  obtain heq | hlt := eq_or_lt_of_le hle
  · rw [hp, ht.inj p u hpd hu heq]
  · by_cases hps : p ∈ src :: hops
    · rw [hp, hon hps]
    · exact absurd (hmin _ _ (h.least hu) (h.least hpd)) (not_le.2 (hnearer p hpd hps hlt))

/-- A node with a label from a finished one is finished before the target, when it is no further and
the target does not come before it in the order. -/
theorem done_of_first (h : S.Finished start order src dst time l) (hu : l.done u) (hne : u ≠ dst)
    (hv : v ∈ order) (hprev : l.prev.lookup v = some u) (hle : l.dist v ≤ l.dist dst)
    (hfirst : order.idxOf dst ≤ order.idxOf v → dst = v) : l.done v := by
  obtain ⟨k, ht⟩ := h.timed
  by_contra hvd
  have hlt : time u < time dst :=
    lt_of_le_of_ne (h.last u hu) fun heq => hne (ht.inj u dst hu h.target heq)
  have hidx := ht.choice dst v u h.target hv hprev hlt (fun hd => absurd hd hvd) hle
  exact hvd (hfirst hidx ▸ h.target)

/-- **A preferred walk that comes first in the order is traced back.** A node finished before one of
the walk is on the walk or nearer, so none takes the place of a predecessor. -/
theorem traces_of_preferred (h : S.Finished start order src dst time l) (hS : S.Growing top start)
    (hnodup : order.Nodup) (hne : src ≠ dst) (hp : S.Preferred start src v hops)
    (horder : order = hops ++ tail ++ rest) (hend : v = dst ∧ tail = [] ∨ dst ∈ tail)
    (hnear : ∀ c d, S.Least start src v c → S.Least start src dst d → c ≤ d) :
    l.done v ∧ Traces l.prev src v hops ∧
      ∀ x, l.done x → x ∉ src :: hops → time x < time v → l.dist x < l.dist v := by
  obtain ⟨k, ht⟩ := h.timed
  induction hp generalizing tail with
  | nil =>
    refine ⟨h.ok.source_done h.target, .nil, fun x hx _ hlt => ?_⟩
    exact absurd (ht.source x hx) (not_le.2 hlt)
  | @concat u v hops hpref hv htight hbest ih =>
    obtain ⟨c, w, hcu, hcost, hcv⟩ := id htight
    have hsplit : order = hops ++ (v :: tail) ++ rest := by simp [horder]
    have hdst : dst ∈ v :: tail := by
      obtain ⟨rfl, -⟩ | hd := hend
      · exact List.mem_cons_self ..
      · exact List.mem_cons_of_mem _ hd
    have hdisjoint : ∀ x ∈ hops, x ∉ v :: tail := by
      rw [hsplit, List.append_assoc] at hnodup
      intro x hx hx'
      exact (List.nodup_append.1 hnodup).2.2 x hx x (List.mem_append_left _ hx') rfl
    have hus : u ∈ src :: hops := hpref.mem
    have hudst : u ≠ dst := by
      rintro rfl
      exact hdisjoint u ((List.mem_cons.1 hus).resolve_left (Ne.symm hne)) hdst
    have hgrow : c ≤ S.add c w := by
      obtain ⟨⟨hops', hw⟩, -⟩ := hcu
      exact hS.grow src u v w hops' c hw hcost
    obtain ⟨hud, htraces, hnearer⟩ := ih hsplit (.inr hdst) fun c' d hc' hd => by
      rw [hc'.unique hcu]
      exact hgrow.trans (hnear _ d hcv hd)
    obtain rfl : l.dist u = c := h.dist_eq hud hcu
    have hvo : v ∈ order := by simp [horder]
    have hdv : l.dist v = S.add (l.dist u) w := h.dist_eq_of_edge hS hud hudst hcost hcv
    have hvs : v ≠ src := fun heq => hv (heq ▸ List.mem_cons_self ..)
    have hprev := h.lookup_prev_of_best hS hud hcost hcv hdv hvs hbest hnearer
    -- nothing comes before `v` in the order but what is on the walk
    have hbefore : ∀ x, order.idxOf x ≤ order.idxOf v → x ∈ hops ++ [v] := by
      intro x hx
      rw [horder, List.append_assoc] at hx
      exact mem_of_idxOf_le (by simp) hx
    have hvd : l.done v := by
      refine h.done_of_first hud hudst hvo hprev ?_ fun hidx => ?_
      · rw [hdv]
        exact hnear _ _ hcv (h.least h.target)
      · obtain hd | hd := List.mem_append.1 (hbefore dst hidx)
        · exact absurd hdst (hdisjoint dst hd)
        · exact List.mem_singleton.1 hd
    refine ⟨hvd, htraces.concat hvs hprev, fun x hx hxs hxv => ?_⟩
    rw [← List.cons_append, List.mem_append, not_or] at hxs
    have huv : time u < time v := (ht.pred v u hprev).2.1 hvd
    obtain hlt | heq | hlt := lt_trichotomy (time x) (time u)
    · exact (hnearer x hx hxs.1 hlt).trans_le (ht.mono u v hud hvd huv.le)
    · exact absurd (ht.inj x u hx hud heq ▸ hus) hxs.1
    · by_contra hle
      have hidx := hbefore x (ht.choice x v u hx hvo hprev hlt (fun _ => hxv) (not_lt.1 hle))
      rw [List.mem_append] at hidx
      exact hidx.elim (fun hm => hxs.1 (List.mem_cons_of_mem _ hm)) hxs.2

end Finished

/-! ## The paths that are found -/

namespace Growing

variable {S : LabelSearch V W L} {top start : L} {order hops : List V} {src dst : V}
  (hS : S.Growing top start)

include hS

/-- The labels of a search whose target some walk leads to. -/
theorem exists_finished (hmem : ∀ a b w, S.edge a b = some w → b ∈ order) (hsrc : src ∈ order)
    {c : L} (hwalk : S.Walk start src dst hops c) :
    ∃ time, S.Finished start order src dst time (S.final top start order src dst) := by
  have hdone : ∀ x, ¬(SearchLabels.init top start src).done x := fun x h => Bool.false_ne_true h
  obtain ⟨hok, -⟩ := final_spec hS.top_infinite hmem start src dst
  have htarget := hS.done_of_walk hmem hsrc hwalk
  obtain ⟨time, k, ht, hlast, hbut⟩ := (Timed.init S top start order src fun _ => 0).search hS hmem
    order.length (ok_init hS.top_infinite start src) (relaxed_init S top start src)
    (Bool.eq_false_iff.2 (hdone dst))
  exact ⟨time, ⟨k, ht⟩, hok, hS.final_settled hmem hsrc dst, hS.start_le_final order src dst, hbut,
    htarget, fun x hx => hlast x hx htarget⟩

/-- **A path that is found is preferred**, whatever the order of the nodes. -/
theorem preferred_of_path (hmem : ∀ a b w, S.edge a b = some w → b ∈ order) (hsrc : src ∈ order)
    (hp : S.path top start order src dst = some hops) : S.Preferred start src dst hops := by
  by_cases hne : src = dst
  · subst hne
    obtain rfl : [] = hops := by simpa [path] using hp
    exact .nil
  obtain ⟨_, _, hwalk⟩ := (hS.isSome_path_iff hmem hsrc dst).1 (by simp [hp])
  obtain ⟨time, h⟩ := hS.exists_finished hmem hsrc hwalk
  obtain ⟨hops', hp', hl⟩ := path_eq_some_of_dist hS.top_infinite hmem hne
    (h.ok.finite dst h.target)
  obtain rfl := Option.some.inj (hp.symm.trans hp')
  exact (h.preferred_of_traces hS hmem hsrc hl.traces h.target).1

/-- The label of a path that is found is least. -/
theorem least_of_path (hmem : ∀ a b w, S.edge a b = some w → b ∈ order) (hsrc : src ∈ order)
    (hp : S.path top start order src dst = some hops) :
    ∃ c, S.Walk start src dst hops c ∧ S.Least start src dst c :=
  (hS.preferred_of_path hmem hsrc hp).exists_walk hS

/-- **Every preferred walk is found** when its nodes are listed first. -/
theorem exists_order_of_preferred {nodes : List V} (hnodes : nodes.Nodup)
    (hmem : ∀ a b w, S.edge a b = some w → b ∈ nodes) (hsrc : src ∈ nodes)
    (h : S.Preferred start src dst hops) :
    ∃ order, order.Perm nodes ∧ S.path top start order src dst = some hops := by
  have hsub : hops ⊆ nodes := by
    intro x hx
    obtain ⟨u, w, he⟩ := h.exists_edge_of_mem hx
    exact hmem u x w he
  have hsubperm := ((List.nodup_cons.1 h.nodup).2).subperm hsub
  have horder : (hops ++ nodes.diff hops).Perm nodes :=
    List.subperm_append_diff_self_of_count_le (List.subperm_ext_iff.1 hsubperm)
  refine ⟨_, horder, ?_⟩
  by_cases hne : src = dst
  · subst hne
    cases h with
    | nil => exact if_pos rfl
    | concat _ hv _ _ => exact absurd (List.mem_cons_self ..) hv
  have hmem' : ∀ a b w, S.edge a b = some w → b ∈ hops ++ nodes.diff hops :=
    fun a b w he => horder.mem_iff.2 (hmem a b w he)
  obtain ⟨c, hwalk, -⟩ := h.exists_walk hS
  obtain ⟨time, hfin⟩ := hS.exists_finished hmem' (horder.mem_iff.2 hsrc) hwalk
  have hsplit : hops ++ nodes.diff hops = hops ++ [] ++ nodes.diff hops := by
    rw [List.append_nil]
  obtain ⟨-, htraces, -⟩ := hfin.traces_of_preferred hS (horder.nodup_iff.2 hnodes) hne h hsplit
    (.inl ⟨rfl, rfl⟩) fun c d hc hd => (hc.unique hd).le
  obtain ⟨hops', hp, hl⟩ := path_eq_some_of_dist hS.top_infinite hmem' hne
    (hfin.ok.finite dst hfin.target)
  rw [hp, hl.traces.unique htraces]

/-- **The direct hop** is found exactly when no walk has a smaller label: the source is the first to
offer the target a label, and the nodes of a preferred walk follow no later node than they can. -/
theorem path_eq_direct_iff (hmem : ∀ a b w, S.edge a b = some w → b ∈ order) (hsrc : src ∈ order)
    (hne : src ≠ dst) :
    S.path top start order src dst = some [dst] ↔
      ∃ w, S.edge src dst = some w ∧ S.Least start src dst (S.add start w) := by
  constructor
  · intro hp
    have hpref := hS.preferred_of_path hmem hsrc hp
    generalize hhops : [dst] = hops at hpref
    cases hpref with
    | nil => cases hhops
    | @concat u _ hops hpref _ htight _ =>
      obtain rfl : [] = hops := by simpa using congrArg List.dropLast hhops
      obtain rfl : u = src := List.mem_singleton.1 hpref.mem
      obtain ⟨c, w, hc, he, hv⟩ := htight
      obtain rfl := hc.unique hS.least_source
      exact ⟨w, he, hv⟩
  · rintro ⟨w, he, hleast⟩
    obtain ⟨⟨hops', hw⟩, -⟩ := id hleast
    obtain ⟨hops, hp⟩ := Option.isSome_iff_exists.1
      ((hS.isSome_path_iff hmem hsrc dst).2 ⟨hops', _, hw⟩)
    have htight : S.Tight start src src dst := ⟨start, w, hS.least_source, he, hleast⟩
    cases hS.preferred_of_path hmem hsrc hp with
    | nil => exact absurd rfl hne
    | @concat u _ hops hpref _ _ hbest =>
      -- the source is on the walk and can be followed by the target, so it is
      obtain rfl := (hbest src htight).2 (List.mem_cons_self ..)
      cases hpref with
      | nil => exact hp
      | concat _ hv _ _ => exact absurd (List.mem_cons_self ..) hv

end Growing

end OCF.LabelSearch
