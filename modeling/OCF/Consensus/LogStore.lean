import OCF.Consensus.Storage
import OCF.Foundations.Run

/-!
# The log store and the Raft log

A Raft log is what was purged last and the entries after it, one for each index (`RaftLog`). Raft
appends where the log ends, cuts it off behind what was purged, and purges entries that have been
applied, up to and beyond its end. These are the steps of `RaftLog.step`; a step that breaks one of
the rules is not enabled.

The store keeps the entries in a map by index and the last purged id beside it. `logStore_refines`
follows both through any sequence of steps: the map holds exactly the log's entries, so that what is
read from the store is read from the log.
-/

namespace OCF.Consensus

open Std

variable {V B : Type*}

/-! ## The Raft log -/

/-- The order of leaders: by term, then node. -/
def LeaderId.le (a b : LeaderId) : Prop := a.term < b.term ∨ a.term = b.term ∧ a.nodeId ≤ b.nodeId

/-- The ids of the entries that are applied, by index. A later entry comes from the same leader or a
later one. -/
structure AppliedIds where
  id : ℕ → LogId
  index_id : ∀ i, (id i).index = i
  mono : ∀ i j, i ≤ j → (id i).leaderId.le (id j).leaderId

/-- The index of the first entry after what was purged. -/
def firstIndex (purged : Option LogId) : ℕ := purged.elim 0 fun id => id.index + 1

/-- The entries have consecutive indexes. -/
def Consecutive (first : ℕ) (entries : List (Entry V)) : Prop :=
  entries.map (fun e => e.logId.index) = List.range' first entries.length

instance (first : ℕ) (entries : List (Entry V)) : Decidable (Consecutive first entries) :=
  inferInstanceAs (Decidable (_ = _))

/-- A log: what was purged, and the entries after it. -/
structure RaftLog (V : Type*) where
  purged : Option LogId
  entries : List (Entry V)
  consecutive : Consecutive (firstIndex purged) entries

/-- What Raft does with its log. -/
inductive LogOp (V : Type*)
  | append (entries : List (Entry V))
  | truncate (logId : LogId)
  | purge (logId : LogId)
  | saveVote (vote : Vote)
  | saveCommitted (committed : Option LogId)

theorem Consecutive.append {first : ℕ} {es es' : List (Entry V)} (h : Consecutive first es)
    (h' : Consecutive (first + es.length) es') : Consecutive first (es ++ es') := by
  rw [Consecutive, List.map_append, h, h', List.length_append, List.range'_append_1]

theorem Consecutive.take {first : ℕ} {es : List (Entry V)} (h : Consecutive first es) (k : ℕ) :
    Consecutive first (es.take k) := by
  rw [Consecutive, List.map_take, h, List.length_take]
  rcases Nat.le_total k es.length with hk | hk
  · rw [List.take_range'_of_length_ge hk, Nat.min_eq_left hk]
  · rw [List.take_range'_of_length_le hk, Nat.min_eq_right hk]

theorem Consecutive.drop {first : ℕ} {es : List (Entry V)} (h : Consecutive first es) (k : ℕ) :
    Consecutive (first + k) (es.drop k) := by
  rw [Consecutive, List.map_drop, h, List.drop_range', List.length_drop, Nat.mul_one]

/-- The position of an entry is its distance from the first index. -/
theorem Consecutive.index_eq {first n : ℕ} {es : List (Entry V)} {e : Entry V}
    (h : Consecutive first es) (hn : es[n]? = some e) : e.logId.index = first + n := by
  have hlt : n < es.length := (List.getElem?_eq_some_iff.1 hn).1
  have hmap : (es.map fun e => e.logId.index)[n]? = some e.logId.index := by
    rw [List.getElem?_map, hn, Option.map_some]
  rw [h, List.getElem?_range' hlt, Nat.one_mul] at hmap
  exact (Option.some.inj hmap).symm

theorem Consecutive.mem_take {first k : ℕ} {es : List (Entry V)} {e : Entry V}
    (h : Consecutive first es) : e ∈ es.take k ↔ e ∈ es ∧ e.logId.index < first + k := by
  simp only [List.mem_iff_getElem?, List.getElem?_take]
  constructor
  · rintro ⟨n, hn⟩
    split_ifs at hn with hk
    exact ⟨⟨n, hn⟩, by have := h.index_eq hn; omega⟩
  · rintro ⟨⟨n, hn⟩, hk⟩
    exact ⟨n, by rwa [if_pos (by have := h.index_eq hn; omega)]⟩

theorem Consecutive.mem_drop {first k : ℕ} {es : List (Entry V)} {e : Entry V}
    (h : Consecutive first es) : e ∈ es.drop k ↔ e ∈ es ∧ first + k ≤ e.logId.index := by
  simp only [List.mem_iff_getElem?, List.getElem?_drop]
  constructor
  · rintro ⟨n, hn⟩
    exact ⟨⟨k + n, hn⟩, by have := h.index_eq hn; omega⟩
  · rintro ⟨⟨n, hn⟩, hk⟩
    have hindex := h.index_eq hn
    exact ⟨n - k, by rwa [Nat.add_sub_of_le (by omega)]⟩

theorem Consecutive.index_bounds {first : ℕ} {es : List (Entry V)} {e : Entry V}
    (h : Consecutive first es) (he : e ∈ es) :
    first ≤ e.logId.index ∧ e.logId.index < first + es.length := by
  obtain ⟨n, hn⟩ := List.mem_iff_getElem?.1 he
  have hlt : n < es.length := (List.getElem?_eq_some_iff.1 hn).1
  have hindex := h.index_eq hn
  omega

namespace RaftLog

def empty : RaftLog V := ⟨none, [], rfl⟩

/-- The index of the first entry. -/
def first (l : RaftLog V) : ℕ := firstIndex l.purged

/-- Remove the entries up to an id. When the log ends before it, it goes on after it. -/
def purge (l : RaftLog V) (id : LogId) (h : l.first ≤ id.index) : RaftLog V where
  purged := some id
  entries := l.entries.drop (id.index + 1 - l.first)
  consecutive := by
    have hdrop := l.consecutive.drop (id.index + 1 - l.first)
    rwa [← first, Nat.add_sub_of_le (by omega)] at hdrop

/-- One step, under the rules that Raft keeps: what is appended continues the log, only what comes
after the purged entries is cut off, and what is purged has been applied. -/
def step (applied : AppliedIds) (l : RaftLog V) : LogOp V → Option (RaftLog V)
  | .append es =>
    if h : Consecutive (l.first + l.entries.length) es then
      some ⟨l.purged, l.entries ++ es, l.consecutive.append h⟩
    else none
  | .truncate id =>
    if l.first ≤ id.index then
      some ⟨l.purged, l.entries.take (id.index - l.first), l.consecutive.take _⟩
    else none
  | .purge id =>
    if id = applied.id id.index then
      if h : l.first ≤ id.index then some (l.purge id h) else some l
    else none
  | .saveVote _ => some l
  | .saveCommitted _ => some l

/-- The entries in a range of indexes. -/
def entriesIn (l : RaftLog V) (lo hi : RangeBound ℕ) : List (Entry V) :=
  l.entries.filter fun e => lo.admitsAbove e.logId.index && hi.admitsBelow e.logId.index

/-- The id of the last entry, or of what was purged. -/
def lastId (l : RaftLog V) : Option LogId := (l.entries.getLast?.map Entry.logId).or l.purged

end RaftLog

/-! ## The store -/

namespace Inner

/-- One step of the store. -/
def step (i : Inner V B) : LogOp V → Inner V B
  | .append es => i.append es
  | .truncate id => i.truncate id
  | .purge id => i.purge id
  | .saveVote vote => i.saveVote vote
  | .saveCommitted committed => i.saveCommitted committed

/-- The store after some steps, from the empty one. -/
def after (store : Store.StateStore V) (ops : List (LogOp V)) : Inner V B :=
  ops.foldl step (newStorage store).inner

/-- The store holds a log: the same was purged last, and the map has the entries by index. -/
structure Holds (i : Inner V B) (l : RaftLog V) : Prop where
  purged : i.lastPurged = l.purged
  log : ∀ k e, i.log[k]? = some e ↔ e ∈ l.entries ∧ e.logId.index = k

/-- Removing the keys with a property leaves the other entries. -/
theorem getElem?_erase_filter (log : BTreeMap ℕ (Entry V)) (p : ℕ → Bool) (k : ℕ) (e : Entry V) :
    (((log.toList.map Prod.fst).filter p).foldl (fun log k => log.erase k) log)[k]? = some e ↔
      log[k]? = some e ∧ p k = false := by
  rw [BTreeMap.getElem?_foldl_erase]
  split_ifs with hk
  · simp [(List.mem_filter.1 hk).2]
  · constructor
    · intro he
      refine ⟨he, ?_⟩
      by_contra hp
      refine hk (List.mem_filter.2 ⟨?_, by simpa using hp⟩)
      exact List.mem_map_of_mem (ExtTreeMap.mem_toList_iff_getElem?_eq_some.2 he)
    · exact fun h => h.1

/-- Appending entries with new indexes. -/
theorem getElem?_append {es : List (Entry V)} (log : BTreeMap ℕ (Entry V))
    (hes : (es.map fun e => e.logId.index).Nodup) (k : ℕ) (e : Entry V) :
    (es.foldl (fun log e => log.insert e.logId.index e) log)[k]? = some e ↔
      e ∈ es ∧ e.logId.index = k ∨ (k ∉ es.map fun e => e.logId.index) ∧ log[k]? = some e := by
  induction es generalizing log with
  | nil => simp
  | cons a es ih =>
    rw [List.map_cons, List.nodup_cons] at hes
    rw [List.foldl_cons, ih _ hes.2, BTreeMap.getElem?_insert_eq, List.mem_cons, List.map_cons,
      List.mem_cons, not_or]
    have hnew : ∀ e' ∈ es, e'.logId.index ≠ a.logId.index := fun e' he' heq =>
      hes.1 (heq ▸ List.mem_map_of_mem he')
    split_ifs with hk
    · subst hk
      constructor
      · rintro (⟨he, heq⟩ | ⟨-, he⟩)
        · exact absurd heq (hnew e he)
        · exact .inl ⟨.inl (Option.some.inj he).symm, by rw [Option.some.inj he]⟩
      · rintro (⟨rfl | he, heq⟩ | ⟨⟨hne, -⟩, -⟩)
        · exact .inr ⟨hes.1, rfl⟩
        · exact absurd heq (hnew e he)
        · exact absurd rfl hne
    · constructor
      · rintro (⟨he, heq⟩ | ⟨hnotin, he⟩)
        · exact .inl ⟨.inr he, heq⟩
        · exact .inr ⟨⟨hk, hnotin⟩, he⟩
      · rintro (⟨rfl | he, heq⟩ | ⟨⟨-, hnotin⟩, he⟩)
        · exact absurd heq.symm hk
        · exact .inl ⟨he, heq⟩
        · exact .inr ⟨hnotin, he⟩

end Inner

/-- A later applied entry has the greater id. -/
theorem AppliedIds.lt_iff (applied : AppliedIds) (i j : ℕ) :
    (applied.id i).lt (applied.id j) = true ↔ i < j := by
  have hi := applied.index_id i
  have hj := applied.index_id j
  simp only [LogId.lt, hi, hj, Bool.or_eq_true, Bool.and_eq_true, decide_eq_true_eq]
  rcases Nat.lt_trichotomy i j with hij | rfl | hij
  · have hmono := applied.mono i j hij.le
    unfold LeaderId.le at hmono
    omega
  · omega
  · have hmono := applied.mono j i hij.le
    unfold LeaderId.le at hmono
    omega

/-! ## Every step keeps the store and the log together -/

namespace Inner

variable {i : Inner V B} {l l' : RaftLog V} {applied : AppliedIds}

theorem Holds.append (h : i.Holds l) {es : List (Entry V)}
    (hes : Consecutive (l.first + l.entries.length) es) :
    (i.append es).Holds ⟨l.purged, l.entries ++ es, l.consecutive.append hes⟩ := by
  have hnodup : (es.map fun e => e.logId.index).Nodup := by
    rw [hes]
    exact List.nodup_range'
  refine ⟨h.purged, fun k e => ?_⟩
  rw [Inner.append, getElem?_append _ hnodup, h.log, List.mem_append]
  constructor
  · rintro (⟨he, hk⟩ | ⟨-, he, hk⟩)
    · exact ⟨.inr he, hk⟩
    · exact ⟨.inl he, hk⟩
  · rintro ⟨he | he, rfl⟩
    · refine .inr ⟨?_, he, rfl⟩
      rw [hes, List.mem_range'_1, not_and_or]
      have := l.consecutive.index_bounds he
      exact .inl (Nat.not_le.2 this.2)
    · exact .inl ⟨he, rfl⟩

theorem Holds.truncate (h : i.Holds l) {id : LogId} (hid : l.first ≤ id.index) :
    (i.truncate id).Holds
      ⟨l.purged, l.entries.take (id.index - l.first), l.consecutive.take _⟩ := by
  refine ⟨h.purged, fun k e => ?_⟩
  rw [Inner.truncate, getElem?_erase_filter, h.log, l.consecutive.mem_take, ← RaftLog.first,
    Nat.add_sub_of_le hid]
  simp only [decide_eq_false_iff_not, Nat.not_le]
  constructor
  · rintro ⟨⟨he, rfl⟩, hlt⟩
    exact ⟨⟨he, hlt⟩, rfl⟩
  · rintro ⟨⟨he, hlt⟩, rfl⟩
    exact ⟨⟨he, rfl⟩, hlt⟩

/-- Purging moves the purged id forward exactly when it drops what the log drops: among applied
entries the order of the ids is the order of the indexes. -/
theorem Holds.purge (h : i.Holds l) (hpurged : ∀ p ∈ l.purged, p = applied.id p.index) {id : LogId}
    (hid : id = applied.id id.index) :
    ∃ l', (if h : l.first ≤ id.index then some (l.purge id h) else some l) = some l' ∧
      (i.purge id).Holds l' := by
  have hmove : (i.lastPurged.map (·.lt id)).getD true = true ↔ l.first ≤ id.index := by
    rw [h.purged, RaftLog.first]
    cases hp : l.purged with
    | none => simp [firstIndex]
    | some p =>
      rw [Option.map_some, Option.getD_some, hpurged p hp, hid, applied.lt_iff, firstIndex,
        Option.elim_some, applied.index_id, applied.index_id]
      omega
  split_ifs with hle
  · refine ⟨_, rfl, by simp [Inner.purge, RaftLog.purge, hmove.2 hle], fun k e => ?_⟩
    rw [Inner.purge, getElem?_erase_filter, h.log, RaftLog.purge, l.consecutive.mem_drop,
      ← RaftLog.first, Nat.add_sub_of_le (by omega)]
    simp only [decide_eq_false_iff_not, Nat.not_le, Nat.succ_le_iff]
    constructor
    · rintro ⟨⟨he, rfl⟩, hlt⟩
      exact ⟨⟨he, hlt⟩, rfl⟩
    · rintro ⟨⟨he, hlt⟩, rfl⟩
      exact ⟨⟨he, rfl⟩, hlt⟩
  · refine ⟨l, rfl, ?_, fun k e => ?_⟩
    · exact (if_neg (mt hmove.1 hle)).trans h.purged
    · -- everything that is stored comes after the id
      rw [Inner.purge, getElem?_erase_filter, h.log]
      simp only [decide_eq_false_iff_not, Nat.not_le, and_iff_left_iff_imp]
      rintro ⟨he, rfl⟩
      exact (Nat.not_le.1 hle).trans_le (l.consecutive.index_bounds he).1

/-- The store holds a log of which only applied entries were purged. -/
structure Follows (applied : AppliedIds) (i : Inner V B) (l : RaftLog V) : Prop where
  holds : i.Holds l
  purged : ∀ p ∈ l.purged, p = applied.id p.index

/-- **One step.** -/
theorem Follows.step (h : i.Follows applied l) {op : LogOp V} (hop : l.step applied op = some l') :
    (i.step op).Follows applied l' := by
  cases op with
  | append es =>
    simp only [RaftLog.step, Option.dite_none_right_eq_some, Option.some.injEq] at hop
    obtain ⟨hes, rfl⟩ := hop
    exact ⟨h.holds.append hes, h.purged⟩
  | truncate id =>
    simp only [RaftLog.step, Option.ite_none_right_eq_some, Option.some.injEq] at hop
    obtain ⟨hid, rfl⟩ := hop
    exact ⟨h.holds.truncate hid, h.purged⟩
  | purge id =>
    simp only [RaftLog.step, Option.ite_none_right_eq_some] at hop
    obtain ⟨hid, hop⟩ := hop
    obtain ⟨l'', hl'', hholds⟩ := h.holds.purge h.purged hid
    obtain rfl := Option.some.inj (hl''.symm.trans hop)
    refine ⟨hholds, fun p hp => ?_⟩
    split_ifs at hop with hle
    · obtain rfl := Option.some.inj hop
      obtain rfl := Option.some.inj hp
      exact hid
    · obtain rfl := Option.some.inj hop
      exact h.purged p hp
  | saveVote vote =>
    obtain rfl := Option.some.inj hop
    exact ⟨⟨h.holds.purged, h.holds.log⟩, h.purged⟩
  | saveCommitted committed =>
    obtain rfl := Option.some.inj hop
    exact ⟨⟨h.holds.purged, h.holds.log⟩, h.purged⟩

/-- **Every run.** -/
theorem Follows.run (h : i.Follows applied l) {ops : List (LogOp V)}
    (hops : run (RaftLog.step applied) l ops = some l') :
    (ops.foldl Inner.step i).Follows applied l' := by
  induction ops generalizing i l with
  | nil =>
    obtain rfl := Option.some.inj hops
    exact h
  | cons op ops ih =>
    obtain ⟨l₁, hstep, hrest⟩ := run_cons_eq_some.1 hops
    exact ih (h.step hstep) hrest

/-- The map lists the entries of the log. -/
theorem Holds.toList_eq (h : i.Holds l) :
    i.log.toList = l.entries.map fun e => (e.logId.index, e) := by
  refine BTreeMap.toList_eq ?_ fun k e => ?_
  · have hlt : (l.entries.map fun e => e.logId.index).Pairwise (· < ·) := by
      rw [l.consecutive]
      exact List.pairwise_lt_range'
    rw [List.pairwise_map] at hlt ⊢
    exact hlt.imp Nat.compare_eq_lt.2
  · rw [h.log, List.mem_map]
    constructor
    · rintro ⟨he, rfl⟩
      exact ⟨e, he, rfl⟩
    · rintro ⟨e', he', heq⟩
      obtain ⟨rfl, rfl⟩ := Prod.mk.inj heq
      exact ⟨he', rfl⟩

end Inner

/-- **The log store refines the Raft log.** For every sequence of steps that keeps the rules of Raft,
from the empty store: the stored indexes are consecutive from the one after the purged index; every
range that does not make the map panic reads the entries of the log in that range, in order; and the
state of the log is its purged id and its last id, which is the purged one when nothing is stored. -/
theorem logStore_refines (applied : AppliedIds) (store : Store.StateStore V) (ops : List (LogOp V))
    (l : RaftLog V) (hops : run (RaftLog.step applied) .empty ops = some l) :
    ((Inner.after store ops : Inner V B).log.toList.map Prod.fst =
      List.range' (firstIndex (Inner.after store ops : Inner V B).lastPurged)
        (Inner.after store ops : Inner V B).log.size) ∧
    (∀ lo hi, lo.inverted hi = false →
      (Inner.after store ops : Inner V B).tryGetLogEntries lo hi = some (l.entriesIn lo hi)) ∧
    (Inner.after store ops : Inner V B).getLogState = (l.purged, l.lastId) := by
  have hstart : (newStorage (B := B) store).inner.Follows applied RaftLog.empty :=
    ⟨⟨rfl, by simp [newStorage, RaftLog.empty]⟩, by simp [RaftLog.empty]⟩
  have hholds : (Inner.after store ops : Inner V B).Holds l := (hstart.run hops).holds
  have htoList := hholds.toList_eq
  refine ⟨?_, fun lo hi hinv => ?_, ?_⟩
  · rw [← ExtTreeMap.length_toList, htoList, List.map_map, List.length_map, hholds.purged]
    exact l.consecutive
  · rw [Inner.tryGetLogEntries, BTreeMap.range, if_neg (by simp [hinv]), htoList, Option.map_some,
      List.filter_map, List.map_map]
    exact congrArg some (List.map_id _)
  · rw [Inner.getLogState, hholds.purged, htoList, List.getLast?_map, Option.map_map]
    rfl

/-- All applied entries come from one leader. -/
def oneLeader : AppliedIds where
  id i := ⟨⟨1, 1⟩, i⟩
  index_id _ := rfl
  mono _ _ _ := .inr ⟨rfl, le_rfl⟩

def blankAt (index : ℕ) : Entry ℕ := ⟨⟨⟨1, 1⟩, index⟩, .blank⟩

/-- Three entries, of which the last is replaced; then everything up to the index 4 is purged, and
the log goes on behind it. -/
def purgedBeyond : List (LogOp ℕ) :=
  [.append [blankAt 0, blankAt 1, blankAt 2], .truncate ⟨⟨1, 1⟩, 2⟩, .saveVote ⟨⟨1, 1⟩, true⟩,
    .append [blankAt 2], .purge ⟨⟨1, 1⟩, 0⟩, .purge ⟨⟨1, 1⟩, 4⟩, .append [blankAt 5, blankAt 6]]

theorem logStore_refines_purgedBeyond :
    ∃ l : RaftLog ℕ, run (RaftLog.step oneLeader) .empty purgedBeyond = some l ∧
      l.entries = [blankAt 5, blankAt 6] ∧
      (Inner.after .empty purgedBeyond : Inner ℕ Unit).tryGetLogEntries (.excluded 4) (.included 5) =
        some (l.entriesIn (.excluded 4) (.included 5)) ∧
      (Inner.after .empty purgedBeyond : Inner ℕ Unit).getLogState = (l.purged, l.lastId) := by
  obtain ⟨l, hl, hentries⟩ : ∃ l : RaftLog ℕ, run (RaftLog.step oneLeader) .empty purgedBeyond =
      some l ∧ l.entries = [blankAt 5, blankAt 6] := ⟨_, rfl, rfl⟩
  have h := logStore_refines (B := Unit) oneLeader .empty purgedBeyond l hl
  exact ⟨l, hl, hentries, h.2.1 _ _ rfl, h.2.2⟩

/-- A range that ends before it starts reads nothing from the log; the store panics. -/
theorem inverted_range_panics :
    ∃ l : RaftLog ℕ, run (RaftLog.step oneLeader) .empty [.append [blankAt 0]] = some l ∧
      l.entriesIn (.included 1) (.included 0) = [] ∧
      (Inner.after .empty [.append [blankAt 0]] : Inner ℕ Unit).tryGetLogEntries (.included 1)
        (.included 0) = none :=
  ⟨_, rfl, rfl, rfl⟩

end OCF.Consensus
