import OCF.Foundations.HashMap
import OCF.Foundations.Packets
import OCF.Foundations.Run

/-!
# iptables

The fragment of `iptables` that a list of rules is programmed with. A filter table holds a list of
rules for each of its chains; a rule is kept as the arguments that follow the chain in `-A`. The
commands are `-F`, which empties every chain, `-F chain`, which empties one, and `-A chain rule`,
which adds a rule at the end of one. A command on a chain that does not exist is refused, and so is
a rule that cannot be read; which rules can is a parameter.

`rules_flushes` and `rules_appends` say what a run of such commands leaves in every chain. What a
packet meets there is `Filter.verdict`: the target of the first rule it matches, and otherwise the
policy of the chain, which is to accept.
-/

namespace OCF.Iptables

/-- A rule as it was added: the arguments after the chain. -/
abbrev RuleSpec := List String

/-- The chains of the filter table with their rules. -/
structure Filter where
  chains : HashMap String (List RuleSpec)

namespace Filter

/-- The rules of a chain; one that does not exist has none. -/
def rules (k : Filter) (chain : String) : List RuleSpec := (k.chains.lookup chain).getD []

/-- The table with the rules of one chain replaced. -/
def set (k : Filter) (chain : String) (rs : List RuleSpec) : Filter := ⟨k.chains.insert chain rs⟩

/-- The table with every chain emptied. -/
def flushAll (k : Filter) : Filter := ⟨HashMap.mapVal (fun _ _ => []) k.chains⟩

theorem rules_set (k : Filter) (chain c : String) (rs : List RuleSpec) :
    (k.set chain rs).rules c = if c = chain then rs else k.rules c := by
  unfold rules set
  rw [HashMap.lookup_insert_eq]
  split_ifs <;> rfl

theorem rules_flushAll (k : Filter) (c : String) : k.flushAll.rules c = [] := by
  unfold rules flushAll
  rw [HashMap.lookup_mapVal]
  cases k.chains.lookup c <;> rfl

end Filter

variable (accepts : RuleSpec → Bool)

/-- The effect of one command, `none` when it is refused. -/
def exec (k : Filter) : List String → Option Filter
  | ["-F"] => some k.flushAll
  | ["-F", chain] => if chain ∈ k.chains then some (k.set chain []) else none
  | "-A" :: chain :: spec =>
    if chain ∈ k.chains ∧ accepts spec then some (k.set chain (k.rules chain ++ [spec])) else none
  | _ => none

variable {accepts}

/-- After a run of flushes, the flushed chains are empty and the others are as before. -/
theorem rules_flushes {chains : List String} {k k' : Filter}
    (h : run (exec accepts) k (chains.map fun c => ["-F", c]) = some k') (c : String) :
    k'.rules c = if c ∈ chains then [] else k.rules c := by
  induction chains generalizing k with
  | nil =>
    obtain rfl := Option.some.inj h
    simp
  | cons chain chains ih =>
    obtain ⟨t, ht, h⟩ := run_cons_eq_some.1 h
    simp only [exec] at ht
    split_ifs at ht
    obtain rfl := Option.some.inj ht
    rw [ih h, Filter.rules_set]
    by_cases hc : c ∈ chains
    · simp [hc]
    · by_cases he : c = chain <;> simp [hc, he]

/-- After a run of additions, every chain has the rules added to it at its end, in order. -/
theorem rules_appends {rs : List (String × RuleSpec)} {k k' : Filter}
    (h : run (exec accepts) k (rs.map fun r => "-A" :: r.1 :: r.2) = some k') (c : String) :
    k'.rules c = k.rules c ++ (rs.filter fun r => r.1 = c).map Prod.snd := by
  induction rs generalizing k with
  | nil =>
    obtain rfl := Option.some.inj h
    simp
  | cons r rs ih =>
    obtain ⟨t, ht, h⟩ := run_cons_eq_some.1 h
    simp only [exec] at ht
    split_ifs at ht
    obtain rfl := Option.some.inj ht
    rw [ih h, Filter.rules_set]
    by_cases he : c = r.1
    · simp [he]
    · simp [he, Ne.symm he]

/-! ## What a packet meets -/

section Packets

open Net

inductive Target
  | accept
  | drop
  deriving DecidableEq

/-- A match of a rule. -/
inductive Cond
  | proto (name : String)
  | src (addr : String)
  | dst (addr : String)
  | dport (port : UInt16)
  deriving DecidableEq

/-- Read a rule. The match on a port belongs to the protocols that have ports, so one of them has to
be named before it. -/
def readSpec (ported : Bool) : RuleSpec → Option (List Cond × Target)
  | ["-j", "ACCEPT"] => some ([], .accept)
  | ["-j", "DROP"] => some ([], .drop)
  | "-p" :: name :: rest => (readSpec (name = "tcp" || name = "udp") rest).map fun r =>
      (.proto name :: r.1, r.2)
  | "-s" :: addr :: rest => (readSpec ported rest).map fun r => (.src addr :: r.1, r.2)
  | "-d" :: addr :: rest => (readSpec ported rest).map fun r => (.dst addr :: r.1, r.2)
  | "--dport" :: port :: rest =>
    if ported then
      (readPort port).bind fun port => (readSpec ported rest).map fun r => (.dport port :: r.1, r.2)
    else none
  | _ => none

variable (lex : Lexicon) (pkt : Packet)

/-- Whether the tool can read the names in a match. -/
def Cond.readable : Cond → Bool
  | .proto name => (lex.proto name).isSome
  | .src addr => (lex.addr addr).isSome
  | .dst addr => (lex.addr addr).isSome
  | .dport _ => true

/-- Whether a rule can be read. -/
def readable (spec : RuleSpec) : Bool :=
  (readSpec false spec).any fun r => r.1.all fun c => c.readable lex

/-- Whether a match holds of a packet. -/
def Cond.holds : Cond → Bool
  | .proto name => lex.proto name = some pkt.proto
  | .src addr => (lex.addr addr).any fun b => b.contains pkt.src
  | .dst addr => (lex.addr addr).any fun b => b.contains pkt.dst
  | .dport port => pkt.dport = some port

/-- What a rule decides about a packet, if it matches. -/
def decision (spec : RuleSpec) : Option Target :=
  (readSpec false spec).bind fun r => if r.1.all fun c => c.holds lex pkt then some r.2 else none

/-- The first rule that matches decides. -/
def Filter.verdict (k : Filter) (chain : String) : Target :=
  ((k.rules chain).findSome? (decision lex pkt)).getD .accept

end Packets

end OCF.Iptables
