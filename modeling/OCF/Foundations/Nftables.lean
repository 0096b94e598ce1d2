import OCF.Foundations.HashMap
import OCF.Foundations.LastWrite
import OCF.Foundations.Packets

/-!
# nftables

The fragment of nftables that a host firewall is programmed with: scripts that add, delete and
declare tables of base chains, their effect on a ruleset, and what a packet meets there.

* A script is data (`Command`). Loading one is atomic: `load` gives the new ruleset, or `none` when
  the script is rejected. Deleting a table that does not exist is an error, so a script that replaces
  a table adds it first (`replaceTable`, `removeTable`).
* How addresses and protocol names are read is a parameter (`Net.Lexicon`): a script is rejected
  when one of them cannot be read.
* A chain decides by its first matching rule and accepts by default (`Chain.verdict`). Chains of
  one hook are run one after the other: a drop is final, an accept only ends its chain, so a packet
  survives a hook when no chain of it drops the packet (`Survives`).
-/

namespace OCF.Nft

open Net

/-! ## Syntax -/

/-- A match of a rule. -/
inductive Match
  | saddr (addr : String)
  | daddr (addr : String)
  | dport (proto : String) (port : UInt16)
  | protocol (proto : String)
  | ctEstablishedRelated
  | oifname (name : String)
  deriving DecidableEq

/-- What a rule decides. -/
inductive Verdict
  | accept
  | drop
  | masquerade
  deriving DecidableEq

/-- A rule: matches, all of which must hold, and a verdict. -/
structure Rule where
  conds : List Match
  verdict : Verdict
  deriving DecidableEq

/-- A base chain whose policy is to accept. -/
structure Chain where
  name : String
  kind : String
  hook : String
  priority : String
  rules : List Rule
  deriving DecidableEq

/-- A command of a script, on a table of the `inet` family. -/
inductive Command
  | addTable (name : String)
  | deleteTable (name : String)
  | table (name : String) (chains : List Chain)
  deriving DecidableEq

/-! ## Loading a script -/

variable (lex : Lexicon)

/-- Whether a match can be read. -/
def Match.Readable : Match → Bool
  | .saddr addr => (lex.addr addr).isSome
  | .daddr addr => (lex.addr addr).isSome
  | .dport proto _ => (lex.proto proto).isSome
  | .protocol proto => (lex.proto proto).isSome
  | .ctEstablishedRelated => true
  | .oifname _ => true

/-- All matches of a rule can be read. -/
def Rule.Readable (r : Rule) : Bool := r.conds.all fun m => m.Readable lex

/-- All rules of a chain can be read. -/
def Chain.Readable (c : Chain) : Bool := c.rules.all fun r => r.Readable lex

/-- The tables of a host by name. -/
abbrev Ruleset := HashMap String (List Chain)

/-- One command. The scripts that declare a table have deleted it before, so a declaration never
meets a chain of the same name. -/
def exec (rs : Ruleset) : Command → Option Ruleset
  | .addTable name => some (if name ∈ rs then rs else rs.insert name [])
  | .deleteTable name => if name ∈ rs then some (rs.erase name) else none
  | .table name chains =>
    if chains.all fun c => c.Readable lex then
      some (rs.insert name ((rs.lookup name).getD [] ++ chains))
    else none

/-- Load a script: all of it or nothing. -/
def load (rs : Ruleset) (script : List Command) : Option Ruleset := run (exec lex) rs script

/-- Clear a table whether or not it exists. -/
def removeTable (name : String) : List Command := [.addTable name, .deleteTable name]

/-- Declare a table in place of whatever it was before. -/
def replaceTable (name : String) (chains : List Chain) : List Command :=
  removeTable name ++ [.table name chains]

/-- **Removing a table** never fails and changes no other table. -/
theorem load_removeTable (rs : Ruleset) (name : String) :
    ∃ rs', load lex rs (removeTable name) = some rs' ∧
      ∀ x, rs'.lookup x = if x = name then none else rs.lookup x := by
  by_cases hmem : name ∈ rs
  · refine ⟨rs.erase name, ?_, HashMap.lookup_erase_eq rs name⟩
    simp [load, removeTable, run, exec, hmem]
  · refine ⟨(rs.insert name []).erase name, ?_, fun x => ?_⟩
    · simp [load, removeTable, run, exec, hmem, AList.mem_insert]
    · rw [HashMap.lookup_erase_eq, HashMap.lookup_insert_eq]
      split_ifs <;> rfl

/-- **Replacing a table** leaves it with the given chains and changes no other table; it fails
exactly when a match cannot be read. -/
theorem load_replaceTable (rs : Ruleset) (name : String) (chains : List Chain) :
    if chains.all fun c => c.Readable lex then
      ∃ rs', load lex rs (replaceTable name chains) = some rs' ∧
        ∀ x, rs'.lookup x = if x = name then some chains else rs.lookup x
    else load lex rs (replaceTable name chains) = none := by
  obtain ⟨t, ht, hlookup⟩ := load_removeTable lex rs name
  have hload : load lex rs (replaceTable name chains) = exec lex t (.table name chains) := by
    rw [load] at ht
    rw [load, replaceTable, run_append, ht, Option.bind_some, run_cons]
    simp
  split_ifs with hread
  · refine ⟨t.insert name ((t.lookup name).getD [] ++ chains), ?_, fun x => ?_⟩
    · rw [hload, exec, if_pos hread]
    · rw [HashMap.lookup_insert_eq, hlookup, hlookup, if_pos rfl]
      split_ifs <;> rfl
  · rw [hload, exec, if_neg hread]

/-! ## What a packet meets -/

variable (pkt : Packet)

/-- Whether a match holds of a packet. -/
def Match.Holds : Match → Bool
  | .saddr addr => (lex.addr addr).any fun b => b.contains pkt.src
  | .daddr addr => (lex.addr addr).any fun b => b.contains pkt.dst
  | .dport proto port => lex.proto proto = some pkt.proto && pkt.dport = some port
  | .protocol proto => lex.proto proto = some pkt.proto
  | .ctEstablishedRelated => !pkt.isNew
  | .oifname name => pkt.oif = name

/-- All matches of a rule hold. -/
def Rule.Hits (r : Rule) : Bool := r.conds.all fun m => m.Holds lex pkt

/-- The first matching rule decides; a packet that none matches is accepted. -/
def Chain.verdict (c : Chain) : Verdict :=
  ((c.rules.find? fun r => r.Hits lex pkt).map Rule.verdict).getD .accept

/-- No chain of the hook drops the packet. -/
def Survives (rs : Ruleset) (hook : String) : Prop :=
  ∀ name chains, rs.lookup name = some chains → ∀ c ∈ chains, c.hook = hook →
    c.verdict lex pkt ≠ .drop

/-- Some chain of the hook translates the packet's source address. -/
def Masqueraded (rs : Ruleset) (hook : String) : Prop :=
  ∃ name chains, rs.lookup name = some chains ∧ ∃ c ∈ chains, c.hook = hook ∧
    c.verdict lex pkt = .masquerade

/-- A table that is added to others can only drop more. -/
theorem survives_insert {rs rs' : Ruleset} {name : String} {chains : List Chain}
    (hname : rs.lookup name = none)
    (h : ∀ x, rs'.lookup x = if x = name then some chains else rs.lookup x) (hook : String) :
    Survives lex pkt rs' hook ↔
      Survives lex pkt rs hook ∧ ∀ c ∈ chains, c.hook = hook → c.verdict lex pkt ≠ .drop := by
  constructor
  · intro hsurvives
    refine ⟨fun x cs hx => ?_, hsurvives name chains ((h name).trans (if_pos rfl))⟩
    have hne : x ≠ name := by
      rintro rfl
      rw [hname] at hx
      cases hx
    exact hsurvives x cs (((h x).trans (if_neg hne)).trans hx)
  · rintro ⟨hsurvives, hchains⟩ x cs hx
    rw [h] at hx
    split_ifs at hx with hxn
    · obtain rfl := Option.some.inj hx
      exact hchains
    · exact hsurvives x cs hx

end OCF.Nft
