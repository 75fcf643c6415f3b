import Mathlib.Tactic

/-! The nodes of a cell, their roles, and the quorum. -/
namespace Exocore.Core

/-- Printed form of a peer id. Its parsing belongs to another crate. -/
structure NodeId where
  str : String
deriving DecidableEq

inductive CellNodeRole where
  | chain
  | store
  | appHost
deriving DecidableEq

structure CellNode where
  id : NodeId
  roles : List CellNodeRole

def CellNode.hasRole (n : CellNode) (role : CellNodeRole) : Bool := n.roles.contains role

/-- The cell as seen by one of its nodes. The nodes are keyed by their ids and stand in
the order of the hash map, which does not change while the cell does not. -/
structure Cell where
  localNode : NodeId
  nodes : List CellNode
  nodup : (nodes.map CellNode.id).Nodup

def Cell.get (c : Cell) (id : NodeId) : Option CellNode := c.nodes.find? fun n => n.id = id

def Cell.withRole (c : Cell) (role : CellNodeRole) : List CellNode :=
  c.nodes.filter fun n => n.hasRole role

def Cell.countWithRole (c : Cell) (role : CellNodeRole) : ℕ := (c.withRole role).length

def Cell.hasQuorum (c : Cell) (count : ℕ) (role : Option CellNodeRole) : Bool :=
  let nbNodes := match role with
    | some role => c.countWithRole role
    | none => c.nodes.length
  if nbNodes = 0 then false else count > nbNodes / 2

def Cell.localNodeHasRole (c : Cell) (role : CellNodeRole) : Bool :=
  match c.get c.localNode with
  | some n => n.hasRole role
  | none => false

theorem hasQuorum_chain_iff (c : Cell) (count : ℕ) :
    c.hasQuorum count (some .chain) = true ↔
      0 < c.countWithRole .chain ∧ c.countWithRole .chain < 2 * count := by
  simp only [Cell.hasQuorum]
  split_ifs with h0
  · simp only [false_iff]
    omega
  · simp only [gt_iff_lt, decide_eq_true_eq]
    omega

end Exocore.Core
