import TablePlan.Proofs.Reach
/-! What a resolution leaves behind, whatever it began with. It may begin inside another one, with
names on the active path and others resolved: the path is then as it was, and behind the resolved
names come those that the table leads to and that were missing. A visit that succeeds has not used
up its room, however little it was given. -/
namespace TablePlan.DependencyMap

variable {m : DependencyMap} {limits : Limits} {table : String} {depth room : Nat}
  {old added pending : List String} {p q : Progress}

theorem followPasses (visited : ∀ name p q, m.visit limits room name (depth + 1) p = .ok q →
      Visit m limits name (depth + 1) p (.ok q))
    (ran : follow (fun name => m.visit limits room name (depth + 1)) table pending p = .ok q) :
    Walk m limits table depth pending p (.ok (q.leave table)) := by
  induction pending generalizing p with
  | nil =>
    cases ran
    exact .leave
  | cons name rest ih =>
    unfold follow Progress.standing at ran
    by_cases resolved : name ∈ p.resolved
    · simp only [if_pos resolved] at ran
      exact .known resolved (ih ran)
    · by_cases active : name ∈ p.active
      · simp [if_neg resolved, if_pos active] at ran
      · simp only [if_neg resolved, if_neg active] at ran
        obtain ⟨between, here, later⟩ := bindOk.1 ran
        cases visited name p between here with
        | known _ known => exact absurd known resolved
        | walk within _ inner => exact .next resolved active within inner (ih later)

theorem visitPasses (ran : m.visit limits room table depth p = .ok q) :
    Visit m limits table depth p (.ok q) := by
  induction room generalizing table depth p q with
  | zero => cases ran
  | succ room ih =>
    unfold visit at ran
    obtain ⟨_, checked, ran⟩ := bindOk.1 ran
    have within := Limits.checkPasses.1 checked
    split at ran
    · rename_i resolved
      cases ran
      exact .known within resolved
    · rename_i unresolved
      obtain ⟨between, followed, last⟩ := bindOk.1 ran
      cases last
      exact .walk within unresolved (followPasses (fun name p q => ih) followed)

/-- The names that a table adds to an order: itself and all that it leads to, as far as they are not
there yet, dependencies first. -/
structure Adds (m : DependencyMap) (table : String) (old added : List String) : Prop where
  exact : ∀ name, name ∈ added ↔ name ∉ old ∧ (name = table ∨ m.Reaches table name)
  distinct : added.Nodup
  ordered : ∀ before name after, added = before ++ name :: after →
    ∀ dependency ∈ m.of name, dependency ∈ old ++ before
  last : added.getLast? = some table

theorem orderedBehind (ordered : m.Ordered (old ++ added)) :
    ∀ before name after, added = before ++ name :: after →
      ∀ dependency ∈ m.of name, dependency ∈ old ++ before := by
  intro before name after cut
  exact ordered (old ++ before) name after (by rw [cut, List.append_assoc])

theorem walkAdds (walk : Walk m limits table depth (m.of table) (p.enter table) (.ok q))
    (sound : Sound m q) (whole : q.resolved = p.resolved ++ added)
    (ends : added.getLast? = some table) : Adds m table p.resolved added := by
  obtain ⟨_, fresh, apart⟩ := List.nodup_append.1 (whole ▸ sound.distinct)
  have new : ∀ name ∈ added, name ∉ p.resolved :=
    fun name inside known => apart name known name inside rfl
  have placed : ∀ name ∈ added, name ∈ q.resolved :=
    fun name inside => whole ▸ List.mem_append_right _ inside
  refine ⟨fun name => ⟨fun inside => ⟨new name inside, ?_⟩, fun ⟨missing, led⟩ => ?_⟩, fresh,
    orderedBehind (whole ▸ sound.ordered), ends⟩
  · rcases walkGathers walk (placed name inside) with known | same | ⟨due, reads, onward⟩
    · exact absurd known (new name inside)
    · exact .inl same
    · exact .inr (readsReach reads onward)
  · have resolved : name ∈ q.resolved := by
      have here : table ∈ q.resolved := placed table (List.mem_of_getLast? ends)
      rcases led with same | reaches
      · exact same ▸ here
      · exact (orderedReaches sound.ordered here reaches).1
    exact (List.mem_append.1 (whole ▸ resolved)).resolve_left missing

theorem visitAdds (sound : Sound m p) (unresolved : table ∉ p.resolved)
    (inactive : table ∉ p.active) (ran : m.visit limits room table depth p = .ok q) :
    q.active = p.active ∧
      ∃ added, q.resolved = p.resolved ++ added ∧ Adds m table p.resolved added := by
  have visit := visitPasses ran
  refine ⟨visitRestoresPath visit inactive, ?_⟩
  cases visit with
  | known _ resolved => exact absurd resolved unresolved
  | walk _ _ walk =>
    have after : Sound m q := walkSound walk (sound.enter unresolved inactive)
      (by simp [Progress.enter]) fun name member => .inr member
    obtain ⟨found, grown⟩ := walkGrows walk
    have whole : q.resolved = p.resolved ++ (found ++ [table]) := by
      rw [grown, List.append_assoc, Progress.enter]
    exact ⟨found ++ [table], whole, walkAdds walk after whole (by simp)⟩

def supplying : DependencyMap :=
  empty.putAll [("supply", ["routes", "flow"]), ("depots", ["routes"]),
    ("flow", ["plants", "depots", "routes"])]

theorem flowAdds :
    let before : Progress := ⟨["routes"], ["orders", "supply"]⟩
    let after : Progress := ⟨["routes", "plants", "depots", "flow"], ["orders", "supply"]⟩
    Sound supplying before ∧ "flow" ∉ before.resolved ∧ "flow" ∉ before.active ∧
      supplying.resolveTable {} "flow" 2 before = .ok after ∧
      Adds supplying "flow" before.resolved ["plants", "depots", "flow"] := by
  intro before after
  have free : ∀ name ∈ supplying.of "routes", name ∈ [] := by decide
  have sound : Sound supplying before :=
    ⟨by decide, by decide, by decide, orderedSnoc (orderedNil supplying) free⟩
  have ran : supplying.resolveTable {} "flow" 2 before = .ok after := rfl
  obtain ⟨-, added, whole, adds⟩ := visitAdds sound (by decide) (by decide) ran
  have same : added = ["plants", "depots", "flow"] := (List.cons.inj whole).2.symm
  exact ⟨sound, by decide, by decide, ran, same ▸ adds⟩

end TablePlan.DependencyMap
