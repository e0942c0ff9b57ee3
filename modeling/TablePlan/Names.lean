/-! Sets of names that remember the order in which their members first came. -/
namespace TablePlan.Names

def add (names : List String) (name : String) : List String :=
  if name ∈ names then names else names ++ [name]

def addAll (names : List String) : List String → List String
  | [] => names
  | name :: rest => addAll (add names name) rest

def ofList (names : List String) : List String := addAll [] names

theorem memAdd {names : List String} {name other : String} :
    other ∈ add names name ↔ other ∈ names ∨ other = name := by
  unfold add
  split
  · rename_i known
    exact ⟨Or.inl, fun h => h.elim id (fun same => same ▸ known)⟩
  · simp

theorem addPairwise {R : String → String → Prop} {names : List String} {name : String}
    (held : names.Pairwise R) (fresh : name ∉ names → ∀ other ∈ names, R other name) :
    (add names name).Pairwise R := by
  unfold add
  split
  · exact held
  · rename_i unknown
    refine List.pairwise_append.2 ⟨held, List.pairwise_singleton _ _, fun other known _ last => ?_⟩
    cases List.mem_singleton.1 last
    exact fresh unknown other known

theorem addDistinct {names : List String} {name : String} (distinct : names.Nodup) :
    (add names name).Nodup :=
  addPairwise distinct fun fresh _ known same => fresh (same ▸ known)

theorem memAddAll {names added : List String} {other : String} :
    other ∈ addAll names added ↔ other ∈ names ∨ other ∈ added := by
  induction added generalizing names with
  | nil => simp [addAll]
  | cons name rest ih => simp [addAll, ih, memAdd, or_assoc]

theorem addAllDistinct {names added : List String} (distinct : names.Nodup) :
    (addAll names added).Nodup := by
  induction added generalizing names with
  | nil => exact distinct
  | cons name rest ih => exact ih (addDistinct distinct)

theorem addAllAppend {names added others : List String} :
    addAll names (added ++ others) = addAll (addAll names added) others := by
  induction added generalizing names with
  | nil => rfl
  | cons first rest ih => exact ih

theorem addAllConcat {names added : List String} {name : String} :
    addAll names (added ++ [name]) = add (addAll names added) name :=
  addAllAppend

theorem memOfList {names : List String} {other : String} :
    other ∈ ofList names ↔ other ∈ names := by
  simp [ofList, memAddAll]

theorem ofListDistinct (names : List String) : (ofList names).Nodup :=
  addAllDistinct List.nodup_nil

end TablePlan.Names
