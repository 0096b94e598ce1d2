import OCF.Foundations.ByteScan
import OCF.Host.Lsblk

/-!
# The scan of a line of `lsblk`, byte by byte

The pairs of a line are read with an index into its bytes. `scanBytes` is the loop as it is run:
each round takes a key and, after a quote, a value out of the line, both between byte indexes, and
such a slice panics where an index is not at the beginning of a character.

The invariant is that the index is at the end of some characters of the line (`scanBytes_eq`): then
a round does what it does on the characters that are left, and takes at least one of them. So the
loop ends on every line, without a panic, with the pairs that `parsePairs` reads.
-/

namespace OCF

namespace Disks

open ByteScan

/-- What the loop comes to: it returns, it panics, or it has not ended yet. -/
inductive ScanOutcome
  | returned (fields : HashMap String String)
  | panicked
  | running

/-- The loop of `parse_pairs`, for a number of rounds. -/
def scanBytes (line : List Char) : ℕ → ℕ → HashMap String String → ScanOutcome
  | 0, _, _ => .running
  | rounds + 1, i, fields =>
    let bs := bytes line
    if i < bs.length then
      let keyStart := advance (fun b => b = byte ' ') bs i
      let keyEnd := advance (fun b => b ≠ byte '=' ∧ b ≠ byte ' ') bs keyStart
      if bs[keyEnd]? ≠ some (byte '=') then .returned fields
      else match slice line keyStart keyEnd with
        | none => .panicked
        | some key =>
          if bs[keyEnd + 1]? ≠ some (byte '"') then scanBytes line rounds (keyEnd + 1) fields
          else
            let valueEnd := advance (fun b => b ≠ byte '"') bs (keyEnd + 2)
            match slice line (keyEnd + 2) valueEnd with
            | none => .panicked
            | some value =>
              scanBytes line rounds (if valueEnd < bs.length then valueEnd + 1 else valueEnd)
                (fields.insert (String.ofList key) (String.ofList value))
    else .returned fields

/-! ## One round -/

/-- The end of some characters, in bytes. -/
def offset (s : List Char) : ℕ := (bytes s).length

theorem offset_concat {c : Char} (hc : c.toNat < 128) (s : List Char) :
    offset (s ++ [c]) = offset s + 1 := by
  rw [offset, bytes_append, bytes_cons, utf8EncodeChar_of_ascii hc, offset]
  simp

theorem offset_lt_iff (s t : List Char) : offset s < (bytes (s ++ t)).length ↔ t ≠ [] := by
  cases t with
  | nil => simp [offset]
  | cons c t =>
    have hpos := c.utf8Size_pos
    rw [bytes_append, List.length_append, length_bytes_cons, offset]
    simp only [ne_eq, reduceCtorEq, not_false_eq_true, iff_true]
    omega

/-- What is left after a value: the quote that closes it is taken too, if it is there. -/
theorem offset_closed (s t : List Char) (ht : t.head? = some '"' ∨ t = []) :
    (if offset s < (bytes (s ++ t)).length then offset s + 1 else offset s) =
      offset (s ++ t.take 1) := by
  rcases ht with ht | rfl
  · obtain ⟨t, rfl⟩ : ∃ t', t = '"' :: t' := by
      cases t with
      | nil => simp at ht
      | cons c t => exact ⟨t, by simpa using ht⟩
    rw [if_pos ((offset_lt_iff _ _).2 (by simp)), List.take_succ_cons, List.take_zero,
      offset_concat (by decide)]
  · rw [if_neg fun h => (offset_lt_iff _ _).1 h rfl, List.take_nil, List.append_nil]

section

variable (pre rest : List Char)

/-- The key starts after the spaces. -/
theorem advance_spaces : advance (fun b => b = byte ' ') (bytes (pre ++ rest)) (offset pre) =
    offset (pre ++ rest.takeWhile fun c => c = ' ') :=
  advance_bytes (.eq (by decide)) pre rest

theorem advance_key :
    advance (fun b => b ≠ byte '=' ∧ b ≠ byte ' ') (bytes (pre ++ rest)) (offset pre) =
      offset (pre ++ rest.takeWhile fun c => c ≠ '=' ∧ c ≠ ' ') :=
  advance_bytes (.and (.ne (by decide)) (.ne (by decide))) pre rest

theorem advance_value : advance (fun b => b ≠ byte '"') (bytes (pre ++ rest)) (offset pre) =
    offset (pre ++ rest.takeWhile fun c => c ≠ '"') :=
  advance_bytes (.ne (by decide)) pre rest

theorem getElem?_offset {d : Char} (hd : d.toNat < 128) :
    (bytes (pre ++ rest))[offset pre]? ≠ some (byte d) ↔ rest.head? ≠ some d := by
  rw [offset, getElem?_bytes, ne_eq, head?_bytes_eq_some_iff hd]

end

/-- The spaces, the key and what follows it make up what is left of a line. -/
theorem line_split (pre : List Char) {rest spaces start key tail : List Char}
    (hspaces : rest.takeWhile (fun c => c = ' ') = spaces)
    (hstart : rest.dropWhile (fun c => c = ' ') = start)
    (hkey : start.takeWhile (fun c => c ≠ '=' ∧ c ≠ ' ') = key)
    (htail : start.dropWhile (fun c => c ≠ '=' ∧ c ≠ ' ') = tail) :
    pre ++ rest = pre ++ spaces ++ start ∧ start = key ++ tail := by
  rw [List.append_assoc, ← hspaces, ← hkey, ← htail, ← hstart, List.takeWhile_append_dropWhile,
    List.takeWhile_append_dropWhile]
  exact ⟨rfl, rfl⟩

variable {rounds : ℕ} {fields : HashMap String String}

/-- A round reads a key. -/
theorem scanBytes_key (pre : List Char) {rest spaces start key tail : List Char} (hrest : rest ≠ [])
    (hspaces : rest.takeWhile (fun c => c = ' ') = spaces)
    (hstart : rest.dropWhile (fun c => c = ' ') = start)
    (hkey : start.takeWhile (fun c => c ≠ '=' ∧ c ≠ ' ') = key)
    (htail : start.dropWhile (fun c => c ≠ '=' ∧ c ≠ ' ') = tail) :
    scanBytes (pre ++ rest) (rounds + 1) (offset pre) fields =
      if tail.head? ≠ some '=' then .returned fields
      else
        let bs := bytes (pre ++ rest)
        let keyEnd := offset (pre ++ spaces ++ key)
        if bs[keyEnd + 1]? ≠ some (byte '"') then scanBytes (pre ++ rest) rounds (keyEnd + 1) fields
        else
          let valueEnd := advance (fun b => b ≠ byte '"') bs (keyEnd + 2)
          match slice (pre ++ rest) (keyEnd + 2) valueEnd with
          | none => .panicked
          | some value =>
            scanBytes (pre ++ rest) rounds (if valueEnd < bs.length then valueEnd + 1 else valueEnd)
              (fields.insert (String.ofList key) (String.ofList value)) := by
  obtain ⟨hline, hsplit⟩ := line_split pre hspaces hstart hkey htail
  have hline' : pre ++ rest = pre ++ spaces ++ key ++ tail := by
    rw [hline, hsplit, List.append_assoc _ key]
  have hslice : slice (pre ++ rest) (offset (pre ++ spaces)) (offset (pre ++ spaces ++ key)) =
      some key := by
    rw [hline', List.append_assoc _ key]
    exact slice_bytes _ _ _
  have hkeyEnd : advance (fun b => b ≠ byte '=' ∧ b ≠ byte ' ') (bytes (pre ++ rest))
      (offset (pre ++ spaces)) = offset (pre ++ spaces ++ key) := by
    rw [hline, advance_key, hkey]
  have heq : (bytes (pre ++ rest))[offset (pre ++ spaces ++ key)]? ≠ some (byte '=') ↔
      tail.head? ≠ some '=' := by
    rw [hline', getElem?_offset _ _ (by decide)]
  rw [scanBytes]
  simp only [(offset_lt_iff pre rest).2 hrest, if_true, advance_spaces, hspaces, hkeyEnd, heq,
    hslice]

/-- A key with nothing in quotes after it is skipped. -/
theorem scanBytes_bare (pre : List Char) {rest start t : List Char} (hrest : rest ≠ [])
    (hstart : rest.dropWhile (fun c => c = ' ') = start)
    (htail : start.dropWhile (fun c => c ≠ '=' ∧ c ≠ ' ') = '=' :: t) (ht : t.head? ≠ some '"') :
    ∃ pre', pre ++ rest = pre' ++ t ∧ scanBytes (pre ++ rest) (rounds + 1) (offset pre) fields =
      scanBytes (pre' ++ t) rounds (offset pre') fields := by
  have hround := @scanBytes_key rounds fields pre rest _ start _ _ hrest rfl hstart rfl htail
  generalize hspaces : rest.takeWhile (fun c => c = ' ') = spaces at hround
  generalize hkey : start.takeWhile (fun c => c ≠ '=' ∧ c ≠ ' ') = key at hround
  have hline : pre ++ rest = pre ++ spaces ++ key ++ ['='] ++ t := by
    obtain ⟨hline, hsplit⟩ := line_split pre hspaces hstart hkey htail
    rw [hline, hsplit]
    simp
  refine ⟨pre ++ spaces ++ key ++ ['='], hline, hround.trans ?_⟩
  rw [if_neg (by simp)]
  simp only [← offset_concat (c := '=') (by decide), hline]
  rw [if_pos ((getElem?_offset _ _ (by decide)).2 ht)]

/-- A key and a value in quotes. -/
theorem scanBytes_pair (pre : List Char) {rest start key t : List Char} (hrest : rest ≠ [])
    (hstart : rest.dropWhile (fun c => c = ' ') = start)
    (hkey : start.takeWhile (fun c => c ≠ '=' ∧ c ≠ ' ') = key)
    (htail : start.dropWhile (fun c => c ≠ '=' ∧ c ≠ ' ') = '=' :: '"' :: t) :
    ∃ pre', pre ++ rest = pre' ++ (t.dropWhile fun c => c ≠ '"').drop 1 ∧
      scanBytes (pre ++ rest) (rounds + 1) (offset pre) fields =
        scanBytes (pre' ++ (t.dropWhile fun c => c ≠ '"').drop 1) rounds (offset pre')
          (fields.insert (String.ofList key) (String.ofList (t.takeWhile fun c => c ≠ '"'))) := by
  have hround := @scanBytes_key rounds fields pre rest _ start _ _ hrest rfl hstart hkey htail
  generalize hspaces : rest.takeWhile (fun c => c = ' ') = spaces at hround
  have hline : pre ++ rest = pre ++ spaces ++ key ++ ['='] ++ ('"' :: t) := by
    obtain ⟨hline, hsplit⟩ := line_split pre hspaces hstart hkey htail
    rw [hline, hsplit]
    simp
  generalize hpre : pre ++ spaces ++ key ++ ['='] = pre₁ at hline
  have hkeyEnd : offset (pre ++ spaces ++ key) + 1 = offset pre₁ := by
    rw [← hpre, offset_concat (by decide)]
  have hvalueStart : offset (pre ++ spaces ++ key) + 2 = offset (pre₁ ++ ['"']) := by
    rw [offset_concat (by decide), ← hkeyEnd]
  have hquote : pre₁ ++ '"' :: t = pre₁ ++ ['"'] ++ t := by simp
  generalize hvalue : t.takeWhile (fun c => c ≠ '"') = value
  generalize hrest' : t.dropWhile (fun c => c ≠ '"') = rest'
  have ht : t = value ++ rest' := by rw [← hvalue, ← hrest', List.takeWhile_append_dropWhile]
  have hclose : rest'.head? = some '"' ∨ rest' = [] := by
    have hhead := List.head?_dropWhile_not (fun c => decide (c ≠ '"')) t
    rw [hrest'] at hhead
    cases rest' with
    | nil => exact .inr rfl
    | cons c rest' => exact .inl (by simpa using hhead)
  have hvalueEnd : advance (fun b => b ≠ byte '"') (bytes (pre ++ rest)) (offset (pre₁ ++ ['"'])) =
      offset (pre₁ ++ ['"'] ++ value) := by
    rw [hline, hquote, advance_value, hvalue]
  have hslice : slice (pre ++ rest) (offset (pre₁ ++ ['"'])) (offset (pre₁ ++ ['"'] ++ value)) =
      some value := by
    rw [hline, hquote, ht]
    exact slice_bytes _ _ _
  have hline' : pre ++ rest = pre₁ ++ ['"'] ++ value ++ rest' := by
    rw [hline, hquote, ht, List.append_assoc _ value]
  refine ⟨pre₁ ++ ['"'] ++ value ++ rest'.take 1, ?_, hround.trans ?_⟩
  · rw [hline', List.append_assoc _ (rest'.take 1), List.take_append_drop]
  · rw [if_neg (by simp)]
    simp only [hkeyEnd, hvalueStart, hvalueEnd, hslice]
    rw [if_neg]
    · rw [← offset_closed _ _ hclose, List.append_assoc _ (rest'.take 1), List.take_append_drop,
        ← hline']
    · rw [not_ne_iff, hline, offset, getElem?_bytes, head?_bytes_eq_some_iff (by decide)]
      rfl

/-! ## The loop -/

/-- **The loop on bytes is the loop on characters.** The index is at the end of some characters, and
there are more rounds than characters left. -/
theorem scanBytes_eq {rounds n : ℕ} (pre rest : List Char) (fields : HashMap String String)
    (hrounds : rest.length < rounds) (hn : rest.length ≤ n) :
    scanBytes (pre ++ rest) rounds (offset pre) fields = .returned (scanPairs n rest fields) := by
  induction rounds generalizing n pre rest fields with
  | zero => exact absurd hrounds (Nat.not_lt_zero _)
  | succ rounds ih =>
    by_cases hrest : rest = []
    · subst hrest
      have hend : ¬ offset pre < (bytes (pre ++ [])).length := fun h => (offset_lt_iff _ _).1 h rfl
      rw [scanBytes, if_neg hend]
      cases n <;> rfl
    · obtain ⟨n, rfl⟩ : ∃ m, n = m + 1 := by
        have hpos := List.length_pos_of_ne_nil hrest
        exact ⟨n - 1, by omega⟩
      generalize hstart : rest.dropWhile (fun c => c = ' ') = start
      generalize hkey : start.takeWhile (fun c => c ≠ '=' ∧ c ≠ ' ') = key
      generalize htail : start.dropWhile (fun c => c ≠ '=' ∧ c ≠ ' ') = tail
      have hlen : tail.length ≤ rest.length := by
        rw [← htail, ← hstart]
        exact ((List.dropWhile_suffix _).trans (List.dropWhile_suffix _)).length_le
      rw [scanPairs]
      simp only [hstart, hkey, htail]
      split
      · -- a value in quotes
        rename_i t
        obtain ⟨pre', -, hround⟩ :=
          @scanBytes_pair rounds fields pre _ _ _ t hrest hstart hkey htail
        have hdrop : ((t.dropWhile fun c => c ≠ '"').drop 1).length ≤ t.length :=
          ((List.drop_suffix _ _).trans (List.dropWhile_suffix _)).length_le
        simp only [List.length_cons] at hlen
        rw [hround]
        exact ih pre' _ _ (by omega) (by omega)
      · -- something else
        rename_i t hne
        obtain ⟨pre', -, hround⟩ :=
          @scanBytes_bare rounds fields pre _ _ t hrest hstart htail (by cases t <;> simp_all)
        simp only [List.length_cons] at hlen
        rw [hround]
        exact ih pre' t _ (by omega) (by omega)
      · -- no key
        rename_i hne₁ hne₂
        rw [scanBytes_key pre hrest rfl hstart hkey htail, if_pos]
        cases tail <;> simp_all

/-- A key that can be told from what follows it. -/
def PlainKey (key : String) : Prop := key ≠ "" ∧ ∀ c ∈ key.toList, c ≠ ' ' ∧ c ≠ '=' ∧ c ≠ '"'

/-- A line of pairs, separated by single spaces. -/
def printPairs (pairs : List (String × String)) : List Char :=
  [' '].intercalate (pairs.map printPair)

theorem length_le_printPairs (pairs : List (String × String)) :
    pairs.length ≤ (printPairs pairs).length := by
  induction pairs with
  | nil => exact Nat.le_refl _
  | cons p pairs ih =>
    have hp : 3 ≤ (printPair p).length := by
      simp only [printPair, List.length_append, List.length_cons, List.length_nil]
      omega
    cases pairs with
    | nil =>
      rw [printPairs, List.map_cons, List.map_nil, List.intercalate_singleton,
        List.length_singleton]
      omega
    | cons q pairs =>
      rw [printPairs, List.map_cons] at ih ⊢
      rw [List.map_cons, List.intercalate_cons_cons, List.length_append, List.length_append,
        List.length_cons]
      omega

/-- Pairs with distinct keys are what the map they are put in holds. -/
theorem lookup_pairs {pairs : List (String × String)} (hnodup : (pairs.map Prod.fst).Nodup)
    (key value : String) :
    (pairs.foldl (fun m p => m.insert p.1 p.2) (∅ : HashMap String String)).lookup key =
      some value ↔ (key, value) ∈ pairs := by
  rcases HashMap.lookup_foldl_insert Prod.fst Prod.snd pairs (∅ : HashMap String String) key with
    ⟨p, hp, hkey, hlookup⟩ | ⟨hne, hlookup⟩
  · rw [hlookup, Option.some_inj]
    constructor
    · rintro rfl
      exact hkey ▸ hp
    · intro hmem
      have heq : p = (key, value) := List.inj_on_of_nodup_map hnodup hp hmem hkey
      rw [heq]
  · rw [hlookup]
    constructor
    · intro h
      simp at h
    · exact fun hmem => absurd rfl (hne _ hmem)

/-- **Lines are read to their end, and what was printed is read back.** The loop ends on every line
without a panic, after no more rounds than the line has characters and one more. A line of pairs
with distinct plain keys and values without quotes is read as these pairs. -/
theorem parsePairs_scan :
    (∀ (line : String) (rounds : ℕ), line.toList.length < rounds →
      scanBytes line.toList rounds 0 ∅ = .returned (parsePairs line.toList)) ∧
    ∀ pairs : List (String × String), (pairs.map Prod.fst).Nodup →
      (∀ p ∈ pairs, PlainKey p.1 ∧ '"' ∉ p.2.toList) →
      ∀ rounds, (printPairs pairs).length < rounds →
        ∃ fields, scanBytes (printPairs pairs) rounds 0 ∅ = .returned fields ∧
          ∀ key value, fields.lookup key = some value ↔ (key, value) ∈ pairs := by
  have hscan : ∀ (line : List Char) (rounds : ℕ), line.length < rounds →
      scanBytes line rounds 0 ∅ = .returned (parsePairs line) :=
    fun line rounds hrounds => scanBytes_eq [] line ∅ hrounds le_rfl
  refine ⟨fun line rounds hrounds => hscan _ rounds hrounds,
    fun pairs hnodup hpairs rounds hrounds => ⟨_, hscan _ rounds hrounds, fun key value => ?_⟩⟩
  have hplain : ∀ p ∈ pairs, (∀ c ∈ p.1.toList, c ≠ '=' ∧ c ≠ ' ') ∧ '"' ∉ p.2.toList := by
    intro p hp
    obtain ⟨⟨-, hkey⟩, hvalue⟩ := hpairs p hp
    exact ⟨fun c hc => ⟨(hkey c hc).2.1, (hkey c hc).1⟩, hvalue⟩
  have hread : parsePairs (printPairs pairs) = pairs.foldl (fun m p => m.insert p.1 p.2) ∅ :=
    scanPairs_intercalate hplain (length_le_printPairs pairs) ∅
  rw [hread]
  exact lookup_pairs hnodup key value

theorem parsePairs_scan_model :
    ∃ fields, scanBytes (printPairs [("NAME", "sda"), ("MODEL", "Évo 860")]) 100 0 ∅ =
      .returned fields ∧ fields.lookup "MODEL" = some "Évo 860" := by
  obtain ⟨fields, hscan, hfields⟩ := parsePairs_scan.2 [("NAME", "sda"), ("MODEL", "Évo 860")]
    (by decide) (by simp [PlainKey]) 100 (by decide +kernel)
  exact ⟨fields, hscan, (hfields _ _).2 (by simp)⟩

end Disks

end OCF
