import TablePlan.Fault
/-! The ceiling that every nested piece of work is held to. -/
namespace TablePlan

structure Limits where
  maxDepth : Nat := 7
  deriving DecidableEq, Repr

def Limits.check (limits : Limits) (depth : Nat) (place : Place) : Except Fault Unit :=
  if limits.maxDepth < depth then .error (.tooDeep place limits.maxDepth) else .ok ()

theorem Limits.checkPasses {limits : Limits} {depth : Nat} {place : Place} :
    limits.check depth place = .ok () ↔ depth ≤ limits.maxDepth := by
  unfold check
  split <;> simp <;> omega

end TablePlan
