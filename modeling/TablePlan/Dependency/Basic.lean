import TablePlan.Keyed
import TablePlan.Names
/-! Dependency maps: under the name of a table the names that it depends on, each once. -/
namespace TablePlan

structure DependencyMap where
  entries : List (String × List String)
  keysDistinct : (Keyed.names entries).Nodup
  setsDistinct : ∀ entry ∈ entries, entry.2.Nodup
  deriving DecidableEq, Repr

namespace DependencyMap

def empty : DependencyMap := ⟨[], List.nodup_nil, by simp⟩

theorem putSetsDistinct {entries : List (String × List String)} {table : String}
    {names : List String} (fresh : names.Nodup) (held : ∀ entry ∈ entries, entry.2.Nodup) :
    ∀ entry ∈ Keyed.put table names entries, entry.2.Nodup := by
  induction entries with
  | nil => simpa [Keyed.put] using fresh
  | cons entry rest ih =>
    obtain ⟨key, old⟩ := entry
    have tail := ih fun e he => held e (List.mem_cons_of_mem _ he)
    unfold Keyed.put
    split
    · intro e he
      rcases List.mem_cons.1 he with rfl | inside
      · exact fresh
      · exact held e (List.mem_cons_of_mem _ inside)
    · intro e he
      rcases List.mem_cons.1 he with rfl | inside
      · exact held _ (List.mem_cons_self ..)
      · exact tail e inside

def put (m : DependencyMap) (table : String) (names : List String) : DependencyMap :=
  ⟨Keyed.put table (Names.ofList names) m.entries, Keyed.putDistinct m.keysDistinct,
    putSetsDistinct (Names.ofListDistinct names) m.setsDistinct⟩

def putAll (m : DependencyMap) : List (String × List String) → DependencyMap
  | [] => m
  | (table, names) :: rest => putAll (m.put table names) rest

def ofList (entries : List (String × List String)) : DependencyMap := empty.putAll entries

def of (m : DependencyMap) (table : String) : List String :=
  (Keyed.find? table m.entries).getD []

def keys (m : DependencyMap) : List String := Keyed.names m.entries

def names (m : DependencyMap) : List String :=
  Names.ofList (m.keys ++ m.entries.flatMap Prod.snd)

end DependencyMap
end TablePlan
