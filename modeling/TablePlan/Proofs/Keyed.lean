import TablePlan.Keyed
/-! Looking up what has been put under a name. -/
namespace TablePlan.Keyed

variable {α : Type} {name other : String} {value : α} {entries : List (String × α)}

theorem memOfFind (found : find? name entries = some value) : (name, value) ∈ entries := by
  induction entries with
  | nil => simp [find?] at found
  | cons entry rest ih =>
    obtain ⟨key, held⟩ := entry
    unfold find? at found
    split at found
    · rename_i same
      cases found
      exact same ▸ .head _
    · exact .tail _ (ih found)

theorem findOfName (known : name ∈ names entries) : ∃ value, find? name entries = some value := by
  induction entries with
  | nil => simp [names] at known
  | cons entry rest ih =>
    obtain ⟨key, held⟩ := entry
    by_cases same : key = name
    · exact ⟨held, by simp [find?, same]⟩
    · obtain ⟨value, found⟩ := ih ((List.mem_cons.1 known).resolve_left fun h => same h.symm)
      exact ⟨value, by simp [find?, same, found]⟩

theorem findExact (distinct : (names entries).Nodup) :
    find? name entries = some value ↔ (name, value) ∈ entries := by
  refine ⟨memOfFind, fun member => ?_⟩
  induction entries with
  | nil => simp at member
  | cons entry rest ih =>
    obtain ⟨key, held⟩ := entry
    obtain ⟨fresh, distinct⟩ := List.nodup_cons.1 distinct
    rcases List.mem_cons.1 member with same | later
    · cases same
      simp [find?]
    · have apart : key ≠ name := fun same =>
        fresh (List.mem_map.2 ⟨(name, value), later, same.symm⟩)
      rw [find?, if_neg apart, ih distinct later]

theorem findFresh (fresh : name ∉ names entries) : find? name entries = none := by
  cases found : find? name entries with
  | none => rfl
  | some value => exact absurd (List.mem_map_of_mem (memOfFind found)) fresh

theorem findPutSame (name : String) (value : α) (entries : List (String × α)) :
    find? name (put name value entries) = some value := by
  induction entries with
  | nil => simp [put, find?]
  | cons entry rest ih =>
    obtain ⟨key, held⟩ := entry
    by_cases same : key = name
    · simp [put, find?, same]
    · simp [put, find?, same, ih]

theorem findPutOther (apart : other ≠ name) :
    find? other (put name value entries) = find? other entries := by
  induction entries with
  | nil => simp [put, find?, apart.symm]
  | cons entry rest ih =>
    obtain ⟨key, held⟩ := entry
    by_cases same : key = name
    · simp [put, find?, same, apart.symm]
    · simp [put, find?, same, ih]

theorem findChange (name other : String) (f : α → α) (entries : List (String × α)) :
    find? other (change name f entries) =
      (find? other entries).map fun held => if other = name then f held else held := by
  induction entries with
  | nil => rfl
  | cons entry rest ih =>
    obtain ⟨key, held⟩ := entry
    by_cases same : key = other
    · simp [change, find?, same]
    · simpa [change, find?, same] using ih

theorem memPut {entry : String × α} (member : entry ∈ put name value entries) :
    entry.2 = value ∨ entry ∈ entries := by
  induction entries with
  | nil =>
    cases List.mem_singleton.1 member
    exact .inl rfl
  | cons head rest ih =>
    obtain ⟨key, held⟩ := head
    unfold put at member
    split at member
    · rcases List.mem_cons.1 member with rfl | later
      · exact .inl rfl
      · exact .inr (.tail _ later)
    · rcases List.mem_cons.1 member with rfl | later
      · exact .inr (.head _)
      · exact (ih later).imp_right (.tail _)

theorem findSubset {others : List (String × α)} (distinct : (names others).Nodup)
    (inside : entries ⊆ others) (known : name ∈ names entries) :
    find? name entries = find? name others := by
  obtain ⟨value, found⟩ := findOfName known
  rw [found, (findExact distinct).2 (inside (memOfFind found))]

theorem findAgrees {others : List (String × α)} (distinct : (names entries).Nodup)
    (apart : (names others).Nodup)
    (same : ∀ value, (name, value) ∈ entries ↔ (name, value) ∈ others) :
    find? name entries = find? name others :=
  Option.ext fun value => by rw [findExact distinct, findExact apart, same]

/-- All values under a name, in the order in which they came. -/
def all (name : String) (entries : List (String × α)) : List α :=
  (entries.filter fun entry => entry.1 = name).map Prod.snd

theorem allAppend (name : String) (entries others : List (String × α)) :
    all name (entries ++ others) = all name entries ++ all name others := by
  simp [all]

theorem allDistinct (distinct : (names entries).Nodup) :
    all name entries = (find? name entries).toList := by
  induction entries with
  | nil => rfl
  | cons entry rest ih =>
    obtain ⟨key, held⟩ := entry
    obtain ⟨fresh, distinct⟩ := List.nodup_cons.1 distinct
    by_cases same : key = name
    · have none : all name rest = [] := by
        rw [ih distinct, findFresh (same ▸ fresh)]
        rfl
      simp only [all] at none
      simp [all, find?, same, none]
    · simpa [all, find?, same] using ih distinct

theorem freshBefore {entry : String × α} {held rest : List (String × α)}
    (distinct : (names (held ++ entry :: rest)).Nodup) : entry.1 ∉ names held := by
  rw [names, List.map_append] at distinct
  exact fun known => (List.nodup_append.1 distinct).2.2 _ known _ (.head _) rfl

theorem putAllFresh {held added : List (String × α)} (distinct : (names (held ++ added)).Nodup) :
    putAll held added = held ++ added := by
  induction added generalizing held with
  | nil => exact (List.append_nil held).symm
  | cons entry rest ih =>
    rw [putAll, putFresh (freshBefore distinct), ih (by simpa using distinct), List.append_assoc,
      List.singleton_append]

end TablePlan.Keyed
