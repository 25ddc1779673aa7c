import QuorumTree.Quorum.Threshold

/-!
What an operation reports besides its answer.
-/

namespace QuorumTree

inductive NoticeLevel
  | info
  | warning
  deriving DecidableEq, Repr

inductive Notice
  | pruned (dropped total : Number) (budget : Option Number) (retained : Nat)
  | committed (threshold : StatedThreshold) (leafCount depth : Nat) (root : Bytes32)
  | saved (name : String) (id : Int)
  deriving DecidableEq

namespace Notice

/-- Only what leaves quorums out is a warning. -/
def level : Notice → NoticeLevel
  | pruned _ _ _ _ => .warning
  | committed _ _ _ _ | saved _ _ => .info

def message : Notice → String
  | pruned dropped total budget retained =>
    let shown := match budget with
      | some budget => budget.shown
      | none => "None"
    s!"Pruned {dropped} of {total} combinations (budget {shown}); subsets ranked {retained} " ++
      "and above are not committed"
  | committed threshold leafCount depth root =>
    s!"Committed {threshold} MAST: {leafCount} leaves, depth {depth}, root " ++
      Hex.encode root.bytes
  | saved name id => s!"Saved MAST {name} (id {id})"

def line (notice : Notice) : String :=
  (match notice.level with
    | .info => "INFO: "
    | .warning => "WARNING: ") ++ notice.message

end Notice

end QuorumTree
