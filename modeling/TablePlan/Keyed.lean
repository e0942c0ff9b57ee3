/-! Values under names, in the order in which the names first came. A value put
under a known name takes the place of the earlier one. Two such maps are the same
when they have one size and one value under each name, in whatever order. -/
namespace TablePlan.Keyed

variable {α : Type}

def names (entries : List (String × α)) : List String := entries.map Prod.fst

def find? (name : String) : List (String × α) → Option α
  | [] => none
  | (key, value) :: rest => if key = name then some value else find? name rest

def put (name : String) (value : α) : List (String × α) → List (String × α)
  | [] => [(name, value)]
  | (key, held) :: rest =>
    if key = name then (key, value) :: rest else (key, held) :: put name value rest

def putAll (entries : List (String × α)) : List (String × α) → List (String × α)
  | [] => entries
  | (name, value) :: rest => putAll (put name value entries) rest

def ofList (entries : List (String × α)) : List (String × α) := putAll [] entries

def change (name : String) (f : α → α) (entries : List (String × α)) : List (String × α) :=
  entries.map fun (key, held) => (key, if key = name then f held else held)

def same [DecidableEq α] (entries others : List (String × α)) : Bool :=
  entries.length = others.length ∧ ∀ name ∈ names entries, find? name entries = find? name others

theorem namesPut (name : String) (value : α) (entries : List (String × α)) :
    names (put name value entries) =
      if name ∈ names entries then names entries else names entries ++ [name] := by
  induction entries with
  | nil => rfl
  | cons entry rest ih =>
    obtain ⟨key, held⟩ := entry
    by_cases same : key = name
    · simp [put, names, same]
    · have other : ¬name = key := fun h => same h.symm
      simp only [put, same, if_false, names, List.map_cons, List.mem_cons, other, false_or]
      rw [names, names] at ih
      rw [ih]
      split <;> simp

theorem freshDistinct {known : List String} {name : String} (distinct : known.Nodup)
    (fresh : name ∉ known) : (known ++ [name]).Nodup := by
  refine List.nodup_append.2 ⟨distinct, List.nodup_cons.2 ⟨List.not_mem_nil, .nil⟩, ?_⟩
  rintro other member _ last rfl
  cases List.mem_singleton.1 last
  exact fresh member

theorem putDistinct {name : String} {value : α} {entries : List (String × α)}
    (distinct : (names entries).Nodup) : (names (put name value entries)).Nodup := by
  rw [namesPut]
  split
  · exact distinct
  · rename_i fresh
    exact freshDistinct distinct fresh

theorem putAllDistinct {entries added : List (String × α)}
    (distinct : (names entries).Nodup) : (names (putAll entries added)).Nodup := by
  induction added generalizing entries with
  | nil => exact distinct
  | cons entry rest ih => exact ih (putDistinct distinct)

theorem ofListDistinct (entries : List (String × α)) : (names (ofList entries)).Nodup :=
  putAllDistinct (by simp [names])

theorem namesAppend (entries : List (String × α)) (name : String) (value : α) :
    names (entries ++ [(name, value)]) = names entries ++ [name] := by
  simp [names]

theorem namesChange (name : String) (f : α → α) (entries : List (String × α)) :
    names (change name f entries) = names entries := by
  simp [names, change, Function.comp_def]

theorem putFresh {name : String} {value : α} {entries : List (String × α)}
    (fresh : name ∉ names entries) : put name value entries = entries ++ [(name, value)] := by
  induction entries with
  | nil => rfl
  | cons entry rest ih =>
    obtain ⟨key, held⟩ := entry
    simp only [names, List.map_cons, List.mem_cons, not_or] at fresh
    simp only [put, List.cons_append]
    rw [if_neg (fun same => fresh.1 same.symm), ih fresh.2]

end TablePlan.Keyed
