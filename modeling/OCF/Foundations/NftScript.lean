import OCF.Foundations.Nftables
import OCF.Foundations.Run

/-!
# nftables scripts, one command on a line

The command notation of nftables: `add table`, `delete table`, `add chain` and `add rule`, each on a
line of its own, in words. This is the fragment without sets, maps and the like: a rule is a list of
matches on header fields and a verdict. The name of a protocol is not a match by itself, one of its
header fields has to follow it, and only protocols with ports have the field `dport`.

`readScript` reads a text, or rejects it; `loadText` executes what was read, all of it or nothing.
What a packet meets at a hook of a table is the verdict of the chain there (`hookVerdict`).
-/

namespace OCF.Nft

open Net

/-! ## Words and lines -/

/-- The pieces between separators, without the empty ones. -/
def fields (sep : Char) (s : List Char) : List (List Char) := (s.splitOn sep).filter fun w => w ≠ []

theorem fields_nil (sep : Char) : fields sep [] = [] := rfl

/-- The pieces of a text in which each is followed by a separator. -/
theorem fields_flatMap {sep : Char} {ws : List (List Char)} (hws : ∀ w ∈ ws, sep ∉ w ∧ w ≠ [])
    (s : List Char) : fields sep ((ws.flatMap fun w => w ++ [sep]) ++ s) = ws ++ fields sep s := by
  induction ws with
  | nil => rfl
  | cons w ws ih =>
    obtain ⟨hsep, hne⟩ := hws w (List.mem_cons_self ..)
    have ih := ih fun v hv => hws v (List.mem_cons_of_mem _ hv)
    rw [fields] at ih ⊢
    rw [List.flatMap_cons, List.append_assoc, List.append_assoc, List.singleton_append,
      List.splitOn_append_cons_self_of_not_mem hsep, List.filter_cons_of_pos (by simpa using hne), ih]
    rfl

theorem fields_singleton {sep : Char} {w : List Char} (hsep : sep ∉ w) (hne : w ≠ []) :
    fields sep w = [w] := by
  rw [fields, List.splitOn_eq_singleton hsep, List.filter_cons_of_pos (by simpa using hne)]
  rfl

/-! ## Syntax -/

/-- A command on a table of the `inet` family. -/
inductive Statement
  | addTable (table : String)
  | deleteTable (table : String)
  | addChain (table chain hook : String)
  | addRule (table chain : String) (rule : Rule)
  deriving DecidableEq

/-- Put a match in front of a rule. -/
def Rule.when (m : Match) (r : Rule) : Rule := { r with conds := m :: r.conds }

/-- Read the words of a rule. -/
def readRule : List String → Option Rule
  | ["accept"] => some ⟨[], .accept⟩
  | ["drop"] => some ⟨[], .drop⟩
  | "ip" :: "saddr" :: addr :: rest => (readRule rest).map (.when (.saddr addr))
  | "ip" :: "daddr" :: addr :: rest => (readRule rest).map (.when (.daddr addr))
  | "ip" :: "protocol" :: proto :: rest => (readRule rest).map (.when (.protocol proto))
  | "tcp" :: "dport" :: port :: rest =>
    (readPort port).bind fun port => (readRule rest).map (.when (.dport "tcp" port))
  | "udp" :: "dport" :: port :: rest =>
    (readPort port).bind fun port => (readRule rest).map (.when (.dport "udp" port))
  | _ => none

/-- Read the words of a line. The base chains of the fragment filter with the priority 0 and accept
by default. -/
def readWords : List String → Option Statement
  | ["add", "table", "inet", table] => some (.addTable table)
  | ["delete", "table", "inet", table] => some (.deleteTable table)
  | ["add", "chain", "inet", table, chain, "\x7b", "type", "filter", "hook", hook, "priority", "0;",
      "policy", "accept;", "\x7d"] => some (.addChain table chain hook)
  | "add" :: "rule" :: "inet" :: table :: chain :: rest =>
    (readRule rest).map (.addRule table chain)
  | _ => none

/-- Read a line. -/
def readLine (line : List Char) : Option Statement :=
  readWords ((fields ' ' line).map String.ofList)

/-- Read a text; `none` when a line of it cannot be read. -/
def readScript (text : String) : Option (List Statement) :=
  (fields '\n' text.toList).mapM readLine

/-- A word of a line: it is not empty and does not break the line. -/
def IsWord (w : String) : Prop := w ≠ "" ∧ ' ' ∉ w.toList ∧ '\n' ∉ w.toList

instance (w : String) : Decidable (IsWord w) := inferInstanceAs (Decidable (_ ∧ _))

/-- Words, each followed by a blank. -/
def wordsText : List String → String
  | [] => ""
  | w :: ws => w ++ (" " ++ wordsText ws)

theorem wordsText_append (ws ws' : List String) :
    wordsText (ws ++ ws') = wordsText ws ++ wordsText ws' := by
  induction ws with
  | nil => simp [wordsText]
  | cons w ws ih => rw [List.cons_append, wordsText, wordsText, ih, String.append_assoc,
      String.append_assoc]

theorem toList_wordsText (ws : List String) :
    (wordsText ws).toList = (ws.map String.toList).flatMap fun w => w ++ [' '] := by
  induction ws with
  | nil => rfl
  | cons w ws ih => simp [wordsText, ih]

/-- A line of words. -/
def lineOf (ws : List String) (last : String) : String := wordsText ws ++ last

/-- The words of a line are read as they were written. -/
theorem readLine_lineOf {ws : List String} {last : String} (hws : ∀ w ∈ ws, IsWord w)
    (hlast : IsWord last) : readLine (lineOf ws last).toList = readWords (ws ++ [last]) := by
  have hwords : ∀ w ∈ ws.map String.toList, ' ' ∉ w ∧ w ≠ [] := by
    intro w hw
    obtain ⟨v, hv, rfl⟩ := List.mem_map.1 hw
    exact ⟨(hws v hv).2.1, by simpa using (hws v hv).1⟩
  rw [readLine, lineOf, String.toList_append, toList_wordsText, fields_flatMap hwords,
    fields_singleton hlast.2.1 (by simpa using hlast.1)]
  simp [Function.comp_def]

theorem newline_notMem_lineOf {ws : List String} {last : String} (hws : ∀ w ∈ ws, IsWord w)
    (hlast : IsWord last) : '\n' ∉ (lineOf ws last).toList ∧ (lineOf ws last).toList ≠ [] := by
  rw [lineOf, String.toList_append, toList_wordsText]
  constructor
  · intro hmem
    rcases List.mem_append.1 hmem with hmem | hmem
    · obtain ⟨w, hw, hmem⟩ := List.mem_flatMap.1 hmem
      obtain ⟨v, hv, rfl⟩ := List.mem_map.1 hw
      rcases List.mem_append.1 hmem with hmem | hmem
      · exact (hws v hv).2.2 hmem
      · simp at hmem
    · exact hlast.2.2 hmem
  · have hne : last.toList ≠ [] := by simpa using hlast.1
    simp [hne]

theorem mapM_eq_some_map {α β : Type*} {f : α → Option β} {g : α → β} {l : List α}
    (h : ∀ a ∈ l, f a = some (g a)) : l.mapM f = some (l.map g) := by
  induction l with
  | nil => rfl
  | cons a l ih =>
    rw [List.mapM_cons, h a (List.mem_cons_self ..), ih fun b hb => h b (List.mem_cons_of_mem _ hb)]
    rfl

theorem isSome_of_mapM {α β : Type*} {f : α → Option β} {l : List α} (h : (l.mapM f).isSome) :
    ∀ a ∈ l, (f a).isSome := by
  induction l with
  | nil => simp
  | cons a l ih =>
    rw [List.mapM_cons] at h
    cases ha : f a with
    | none => simp [ha] at h
    | some b =>
      cases hl : l.mapM f with
      | none => simp [ha, hl] at h
      | some bs => exact List.forall_mem_cons.2 ⟨by simp [ha], ih (by simp [hl])⟩

/-- Lines, each followed by a line feed. -/
def linesText : List String → String
  | [] => ""
  | l :: ls => l ++ ("\n" ++ linesText ls)

theorem linesText_append (ls ls' : List String) :
    linesText (ls ++ ls') = linesText ls ++ linesText ls' := by
  induction ls with
  | nil => simp [linesText]
  | cons l ls ih => rw [List.cons_append, linesText, linesText, ih, String.append_assoc,
      String.append_assoc]

/-- A text is read line by line. -/
theorem readScript_linesText {ls : List String} (hls : ∀ l ∈ ls, '\n' ∉ l.toList ∧ l.toList ≠ []) :
    readScript (linesText ls) = ls.mapM fun l => readLine l.toList := by
  have htext : (linesText ls).toList = ((ls.map String.toList).flatMap fun l => l ++ ['\n']) ++ [] := by
    clear hls
    induction ls with
    | nil => rfl
    | cons l ls ih => simp_all [linesText]
  have hlines : ∀ l ∈ ls.map String.toList, '\n' ∉ l ∧ l ≠ [] := by
    intro l hl
    obtain ⟨l', hl', rfl⟩ := List.mem_map.1 hl
    exact hls l' hl'
  rw [readScript, htext, fields_flatMap hlines, fields_nil, List.append_nil, List.mapM_map]
  rfl

/-! ## Loading -/

variable (lex : Lexicon)

/-- An empty base chain at a hook. -/
def baseChain (chain hook : String) : Chain := ⟨chain, "filter", hook, "0", []⟩

/-- The chain with a rule added to it, if it has the name. -/
def Chain.addRule (name : String) (rule : Rule) (c : Chain) : Chain :=
  if c.name = name then { c with rules := c.rules ++ [rule] } else c

/-- One command. Adding what is there already changes nothing. -/
def Statement.exec (rs : Ruleset) : Statement → Option Ruleset
  | .addTable table => some (if table ∈ rs then rs else rs.insert table [])
  | .deleteTable table => if table ∈ rs then some (rs.erase table) else none
  | .addChain table chain hook => (rs.lookup table).map fun chains =>
      if ∃ c ∈ chains, c.name = chain then rs
      else rs.insert table (chains ++ [baseChain chain hook])
  | .addRule table chain rule => (rs.lookup table).bind fun chains =>
      if (∃ c ∈ chains, c.name = chain) ∧ rule.Readable lex then
        some (rs.insert table (chains.map (.addRule chain rule)))
      else none

/-- Load a text: all of it or nothing. -/
def loadText (rs : Ruleset) (text : String) : Option Ruleset :=
  (readScript text).bind fun script => run (Statement.exec lex) rs script

/-- What a packet meets at a hook: the verdict of the chain there, or acceptance. -/
def hookVerdict (pkt : Packet) (chains : List Chain) (hook : String) : Verdict :=
  ((chains.find? fun c => c.hook = hook).map fun c => c.verdict lex pkt).getD .accept

/-- A table that is added, deleted and added again is empty, whether or not it was there. -/
theorem run_freshTable (rs : Ruleset) (table : String) :
    ∃ rs', run (Statement.exec lex) rs [.addTable table, .deleteTable table, .addTable table] =
      some rs' ∧ rs'.lookup table = some [] := by
  by_cases hmem : table ∈ rs
  · refine ⟨(rs.erase table).insert table [], ?_, AList.lookup_insert _⟩
    simp [run, Statement.exec, hmem]
  · refine ⟨((rs.insert table []).erase table).insert table [], ?_, AList.lookup_insert _⟩
    simp [run, Statement.exec, hmem, AList.mem_insert]

/-- Chains with different names are added at the end. -/
theorem run_addChains {rs : Ruleset} {table : String} {chains : List Chain} {hooks : List String}
    (hlookup : rs.lookup table = some chains) (hnodup : hooks.Nodup)
    (hnew : ∀ h ∈ hooks, ∀ c ∈ chains, c.name ≠ h) :
    ∃ rs', run (Statement.exec lex) rs (hooks.map fun h => .addChain table h h) = some rs' ∧
      rs'.lookup table = some (chains ++ hooks.map fun h => baseChain h h) := by
  induction hooks generalizing rs chains with
  | nil => exact ⟨rs, rfl, by simpa using hlookup⟩
  | cons h hooks ih =>
    rw [List.nodup_cons] at hnodup
    have hfree : ¬∃ c ∈ chains, c.name = h := by
      rintro ⟨c, hc, hname⟩
      exact hnew h (List.mem_cons_self ..) c hc hname
    have hexec : Statement.exec lex rs (.addChain table h h) =
        some (rs.insert table (chains ++ [baseChain h h])) := by
      rw [Statement.exec, hlookup, Option.map_some, if_neg hfree]
    have hnew' : ∀ h' ∈ hooks, ∀ c ∈ chains ++ [baseChain h h], c.name ≠ h' := by
      intro h' hh' c hc
      rcases List.mem_append.1 hc with hc | hc
      · exact hnew h' (List.mem_cons_of_mem _ hh') c hc
      · rw [List.mem_singleton.1 hc]
        exact fun hname : h = h' => hnodup.1 (hname ▸ hh')
    obtain ⟨rs', hrun, hlookup'⟩ := ih (AList.lookup_insert rs) hnodup.2 hnew'
    refine ⟨rs', run_cons_eq_some.2 ⟨_, hexec, hrun⟩, ?_⟩
    rw [hlookup', List.append_assoc]
    rfl

/-- The rules of a chain, after some were added to chains by name. -/
def Chain.addRules (rules : List (String × Rule)) (c : Chain) : Chain :=
  { c with rules := c.rules ++ (rules.filter fun r => r.1 = c.name).map Prod.snd }

theorem Chain.addRules_cons (r : String × Rule) (rules : List (String × Rule)) (c : Chain) :
    (c.addRule r.1 r.2).addRules rules = c.addRules (r :: rules) := by
  unfold addRule
  split_ifs with h
  · simp [addRules, h]
  · simp [addRules, Ne.symm h]

/-- Rules that can be read are added to chains that are there, each at the end of its chain. -/
theorem run_addRules {rs : Ruleset} {table : String} {chains : List Chain}
    {rules : List (String × Rule)} (hlookup : rs.lookup table = some chains)
    (hrules : ∀ r ∈ rules, (∃ c ∈ chains, c.name = r.1) ∧ r.2.Readable lex) :
    ∃ rs', run (Statement.exec lex) rs (rules.map fun r => .addRule table r.1 r.2) = some rs' ∧
      rs'.lookup table = some (chains.map (.addRules rules)) := by
  induction rules generalizing rs chains with
  | nil =>
    have hid : Chain.addRules [] = id := by
      funext c
      simp [Chain.addRules]
    exact ⟨rs, rfl, by rw [hid, List.map_id, hlookup]⟩
  | cons r rules ih =>
    have hexec : Statement.exec lex rs (.addRule table r.1 r.2) =
        some (rs.insert table (chains.map (.addRule r.1 r.2))) := by
      rw [Statement.exec, hlookup, Option.bind_some, if_pos (hrules r (List.mem_cons_self ..))]
    obtain ⟨rs', hrun, hlookup'⟩ := ih (AList.lookup_insert rs) fun r' hr' => by
      obtain ⟨⟨c, hc, hname⟩, hread⟩ := hrules r' (List.mem_cons_of_mem _ hr')
      refine ⟨⟨c.addRule r.1 r.2, List.mem_map_of_mem hc, ?_⟩, hread⟩
      rw [← hname, Chain.addRule]
      split_ifs <;> rfl
    refine ⟨rs', run_cons_eq_some.2 ⟨_, hexec, hrun⟩, ?_⟩
    rw [hlookup', List.map_map]
    simp only [Function.comp_def, Chain.addRules_cons]

end OCF.Nft
