import TablePlan.Keyed
/-! Query clauses: literals, lists of clauses, and objects that hold a clause under each of their
keys, in order. -/
namespace TablePlan

inductive Clause where
  | literal (text : String)
  | list (items : List Clause)
  | object (entries : List (String × Clause))
  deriving Repr

namespace Clause

mutual

def decEq : (a b : Clause) → Decidable (a = b)
  | .literal a, .literal b => @decidable_of_iff _ (a = b) (by simp) inferInstance
  | .list a, .list b => @decidable_of_iff _ (a = b) (by simp) (decEqItems a b)
  | .object a, .object b => @decidable_of_iff _ (a = b) (by simp) (decEqEntries a b)
  | .literal _, .list _ | .literal _, .object _ | .list _, .literal _ | .list _, .object _
  | .object _, .literal _ | .object _, .list _ => .isFalse (by simp)

def decEqItems : (a b : List Clause) → Decidable (a = b)
  | [], [] => .isTrue rfl
  | [], _ :: _ | _ :: _, [] => .isFalse (by simp)
  | a :: as, b :: bs =>
    @decidable_of_iff _ (a = b ∧ as = bs) (by simp)
      (@instDecidableAnd _ _ (decEq a b) (decEqItems as bs))

def decEqEntries : (a b : List (String × Clause)) → Decidable (a = b)
  | [], [] => .isTrue rfl
  | [], _ :: _ | _ :: _, [] => .isFalse (by simp)
  | (k, a) :: as, (l, b) :: bs =>
    @decidable_of_iff _ (k = l ∧ a = b ∧ as = bs) (by simp [and_assoc])
      (@instDecidableAnd _ _ inferInstance (@instDecidableAnd _ _ (decEq a b) (decEqEntries as bs)))

end

instance : DecidableEq Clause := decEq

def ofEntries (entries : List (String × Clause)) : Clause := .object (Keyed.ofList entries)

inductive Kind where
  | literal
  | list
  | object
  deriving DecidableEq, Repr

def Kind.name : Kind → String
  | .literal => "literal"
  | .list => "list"
  | .object => "object"

def kind : Clause → Kind
  | .literal _ => .literal
  | .list _ => .list
  | .object _ => .object

def literal? : Clause → Option String
  | .literal text => some text
  | _ => none

def items? : Clause → Option (List Clause)
  | .list items => some items
  | _ => none

def entries? : Clause → Option (List (String × Clause))
  | .object entries => some entries
  | _ => none

end Clause
end TablePlan
