import TablePlan.Dependency.Scan
import TablePlan.Proofs.Sequence
/-! All references of a query, said without a ceiling. A scan that succeeds finds these, at whatever
depth it starts and under whatever ceiling. -/
namespace TablePlan.Clause

mutual

def mentions : Clause → List String
  | .object entries => mentionsOfEntries entries
  | .literal _ | .list _ => []

def mentionsOfEntries : List (String × Clause) → List String
  | [] => []
  | (key, .literal text) :: rest => references (directiveOf key) text ++ mentionsOfEntries rest
  | (_, .object entries) :: rest => mentions (.object entries) ++ mentionsOfEntries rest
  | (key, .list items) :: rest => mentionsOfItems (directiveOf key) items ++ mentionsOfEntries rest

def mentionsOfItems (directive : String) : List Clause → List String
  | [] => []
  | .literal text :: rest => references directive text ++ mentionsOfItems directive rest
  | .object entries :: rest => mentions (.object entries) ++ mentionsOfItems directive rest
  | .list _ :: rest => mentionsOfItems directive rest

end

mutual

theorem scanFinds {limits : Limits} {depth : Nat} {found : List String} :
    (query : Clause) → query.scan limits depth = .ok found → found = query.mentions
  | .object entries, ran => by
    unfold scan at ran
    obtain ⟨_, _, ran⟩ := bindOk.1 ran
    unfold mentions
    exact scanEntriesFinds entries ran
  | .literal _, ran | .list _, ran => by
    unfold scan at ran
    obtain ⟨_, _, ran⟩ := bindOk.1 ran
    cases ran

theorem scanEntriesFinds {limits : Limits} {depth : Nat} {found : List String} :
    (entries : List (String × Clause)) →
    scanEntries limits depth entries = .ok found → found = mentionsOfEntries entries
  | [], ran => by
    cases ran
    rfl
  | (key, predicate) :: rest, ran => by
    unfold scanEntries at ran
    cases predicate with
    | literal text =>
      obtain ⟨_, here, ran⟩ := bindOk.1 ran
      obtain ⟨others, later, last⟩ := bindOk.1 ran
      cases here
      cases last
      rw [mentionsOfEntries, scanEntriesFinds rest later]
    | object entries =>
      obtain ⟨inner, here, ran⟩ := bindOk.1 ran
      obtain ⟨others, later, last⟩ := bindOk.1 ran
      cases last
      rw [mentionsOfEntries, scanFinds (.object entries) here, scanEntriesFinds rest later]
    | list items =>
      obtain ⟨inner, here, ran⟩ := bindOk.1 ran
      obtain ⟨others, later, last⟩ := bindOk.1 ran
      cases last
      rw [mentionsOfEntries, scanItemsFinds items here, scanEntriesFinds rest later]

theorem scanItemsFinds {limits : Limits} {depth : Nat} {key : String} {found : List String} :
    (items : List Clause) →
    scanItems limits depth key items = .ok found → found = mentionsOfItems (directiveOf key) items
  | [], ran => by
    cases ran
    rfl
  | item :: rest, ran => by
    unfold scanItems at ran
    cases item with
    | literal text =>
      obtain ⟨_, here, ran⟩ := bindOk.1 ran
      obtain ⟨others, later, last⟩ := bindOk.1 ran
      cases here
      cases last
      rw [mentionsOfItems, scanItemsFinds rest later]
    | object entries =>
      obtain ⟨inner, here, ran⟩ := bindOk.1 ran
      obtain ⟨others, later, last⟩ := bindOk.1 ran
      cases last
      rw [mentionsOfItems, scanFinds (.object entries) here, scanItemsFinds rest later]
    | list _ =>
      obtain ⟨_, here, _⟩ := bindOk.1 ran
      cases here

end

theorem dependenciesFound {limits : Limits} {depth : Nat} {query : Clause} {found : List String}
    (ran : query.dependencies limits depth = .ok found) : found = Names.ofList query.mentions := by
  unfold dependencies at ran
  obtain ⟨names, scanned, last⟩ := bindOk.1 ran
  cases last
  rw [scanFinds query scanned]

end TablePlan.Clause
