import OCF.Foundations.HashMap
import OCF.Foundations.LastWrite
import OCF.Foundations.Packets

/-!
# Flow tables

The fragment of OpenFlow that a switch is programmed with: flows with a priority, a match on IPv4
fields and an action. A flow is given as text fields (`Spec`) and stored with its match in normal
form; adding a flow replaces the flow with the same match and priority, and nothing else
(`addFlow`). A packet is handled by a matching flow of the highest priority. When several are tied
the switch may take any of them, and a packet that matches none is forwarded: `Outcome` is what
can happen to a packet.
-/

namespace OCF.OpenFlow

open Net

inductive Action
  | normal
  | drop
  deriving DecidableEq

/-- A field of a flow's match, as it is written. -/
inductive Field
  | nwSrc (addr : String)
  | nwDst (addr : String)
  | nwProto (keyword : String)
  | tpDst (port : UInt16)
  deriving DecidableEq

/-- A flow on IPv4 packets, as it is written. -/
structure Spec where
  priority : ℕ
  fields : List Field
  action : Action
  deriving DecidableEq

/-- The match of a stored flow; a field that is not set matches everything. -/
structure Match where
  nwSrc : Option Block
  nwDst : Option Block
  nwProto : Option UInt8
  tpDst : Option UInt16
  deriving DecidableEq

/-- The match of every IPv4 packet. -/
def Match.all : Match := ⟨none, none, none, none⟩

variable (lex : Lexicon)

/-- Set one field of a match. -/
def Match.set (m : Match) : Field → Option Match
  | .nwSrc addr => (lex.addr addr).map fun b => { m with nwSrc := b.normalize }
  | .nwDst addr => (lex.addr addr).map fun b => { m with nwDst := b.normalize }
  | .nwProto keyword => (lex.proto keyword).map fun p => { m with nwProto := some p }
  | .tpDst port => some { m with tpDst := some port }

/-- The match a list of fields stands for; `none` when one of them cannot be read. -/
def readFields (fields : List Field) : Option Match := run (Match.set lex) .all fields

/-- The flows of a switch by match and priority. -/
abbrev FlowTable := HashMap (Match × ℕ) Action

/-- Add a flow in place of the one with the same match and priority. -/
def addFlow (table : FlowTable) (spec : Spec) : Option FlowTable :=
  (readFields lex spec.fields).map fun m => table.insert (m, spec.priority) spec.action

/-! ## What happens to a packet -/

/-- Whether a stored match holds of a packet. -/
def Match.Holds (m : Match) (pkt : Packet) : Bool :=
  m.nwSrc.all (fun b => b.contains pkt.src) && m.nwDst.all (fun b => b.contains pkt.dst) &&
    m.nwProto.all (fun p => p = pkt.proto) && m.tpDst.all (fun port => pkt.dport = some port)

/-- What can happen to a packet: the action of a matching flow that no matching flow outranks, or
forwarding when no flow matches. -/
def Outcome (table : FlowTable) (pkt : Packet) (act : Action) : Prop :=
  (∃ m prio, table.lookup (m, prio) = some act ∧ m.Holds pkt = true ∧
    ∀ m' prio', (m', prio') ∈ table → m'.Holds pkt = true → prio' ≤ prio) ∨
  (∀ m prio, (m, prio) ∈ table → m.Holds pkt = false) ∧ act = .normal

/-- Only the flows that match a packet decide what can happen to it. -/
theorem outcome_congr {table table' : FlowTable} {pkt : Packet}
    (h : ∀ m prio, m.Holds pkt = true → table'.lookup (m, prio) = table.lookup (m, prio))
    (act : Action) : Outcome table' pkt act ↔ Outcome table pkt act := by
  have hmem : ∀ m prio, m.Holds pkt = true → ((m, prio) ∈ table' ↔ (m, prio) ∈ table) := by
    intro m prio hm
    rw [HashMap.mem_iff_exists_lookup, HashMap.mem_iff_exists_lookup, h m prio hm]
  refine or_congr (exists₂_congr fun m prio => ?_) (and_congr_left' (forall₂_congr fun m prio => ?_))
  · constructor
    · rintro ⟨hlookup, hm, hmax⟩
      exact ⟨(h m prio hm).symm.trans hlookup, hm,
        fun m' prio' hin hm' => hmax m' prio' ((hmem m' prio' hm').2 hin) hm'⟩
    · rintro ⟨hlookup, hm, hmax⟩
      exact ⟨(h m prio hm).trans hlookup, hm,
        fun m' prio' hin hm' => hmax m' prio' ((hmem m' prio' hm').1 hin) hm'⟩
  · cases hm : m.Holds pkt with
    | false => simp
    | true => rw [hmem m prio hm]

end OCF.OpenFlow
