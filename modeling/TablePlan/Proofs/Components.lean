import Mathlib.Data.List.Perm.Subperm
import Mathlib.Logic.Relation
import TablePlan.Dependency.Graph
import TablePlan.Proofs.Sequence
/-! The components that a search by low numbers completes are the classes of nodes that lead to one
another, each listed after all those that it leads to. By induction on the room, which is never used
up, for each visit enters a node not seen before: what comes onto the stack leads back to the path,
and where it leads back to nothing below its first node it leaves the stack as a component. -/
namespace TablePlan.Graph

variable {g : Graph} {path pending new : List String} {node other base : String}
  {low reached : Nat} {s t u : Search} {components : List (List String)}

def Joins (g : Graph) (source target : String) : Prop := target ∈ g.next source

def Leads (g : Graph) : String → String → Prop := Relation.ReflTransGen g.Joins

theorem nextExact : other ∈ g.next node ↔ (node, other) ∈ g.edges := by
  simp [next]

theorem nextKnown (joins : other ∈ g.next node) : other ∈ g.nodes :=
  (g.joined _ (nextExact.1 joins)).2

structure Listed (g : Graph) (components : List (List String)) : Prop where
  filled : ∀ component ∈ components, component ≠ []
  exact : ∀ component ∈ components, ∀ node ∈ component, ∀ other,
    other ∈ component ↔ g.Leads node other ∧ g.Leads other node
  ordered : ∀ before component after, components = before ++ component :: after →
    ∀ node ∈ component, ∀ other ∈ g.next node, other ∈ component ∨ other ∈ before.flatten

theorem listedNil (g : Graph) : g.Listed [] where
  filled := by simp
  exact := by simp
  ordered := by
    intro before component after cut
    simp at cut

theorem Listed.leads (listed : g.Listed components) (inside : node ∈ components.flatten)
    (leads : g.Leads node other) : other ∈ components.flatten := by
  induction leads with
  | refl => exact inside
  | tail _ joins ih =>
    obtain ⟨component, member, within⟩ := List.mem_flatten.1 ih
    obtain ⟨before, after, cut⟩ := List.append_of_mem member
    rcases listed.ordered before component after cut _ within _ joins with same | earlier
    · exact List.mem_flatten.2 ⟨component, member, same⟩
    · simp only [cut, List.flatten_append]
      exact List.mem_append_left _ earlier

theorem Listed.concat {component : List String} (listed : g.Listed components)
    (filled : component ≠ [])
    (exact : ∀ node ∈ component, ∀ other,
      other ∈ component ↔ g.Leads node other ∧ g.Leads other node)
    (leaves : ∀ node ∈ component, ∀ other ∈ g.next node,
      other ∈ component ∨ other ∈ components.flatten) :
    g.Listed (components ++ [component]) where
  filled := by
    intro one member
    rcases List.mem_append.1 member with old | last
    · exact listed.filled one old
    · cases List.mem_singleton.1 last
      exact filled
  exact := by
    intro one member
    rcases List.mem_append.1 member with old | last
    · exact listed.exact one old
    · cases List.mem_singleton.1 last
      exact exact
  ordered := by
    intro before one after cut
    rcases cutAppend cut with ⟨rest, inside, _⟩ | ⟨rest, rfl, last⟩
    · exact listed.ordered before one rest inside
    · cases rest with
      | nil =>
        cases last
        simpa using leaves
      | cons => simp at last

theorem numberKept (seen : s.seen <+: t.seen) (inside : node ∈ s.seen) :
    t.number node = s.number node := by
  obtain ⟨later, same⟩ := seen
  rw [Search.number, ← same, List.idxOf_append_of_mem inside]
  rfl

theorem numberLow (inside : node ∈ s.seen) : s.number node < s.seen.length :=
  List.idxOf_lt_length_of_mem inside

theorem numberEarly (seen : s.seen <+: t.seen) (small : t.number node < s.seen.length) :
    node ∈ s.seen := by
  obtain ⟨later, same⟩ := seen
  by_contra unseen
  rw [Search.number, ← same, List.idxOf_append_of_notMem unseen] at small
  omega

theorem numberEntered (unseen : node ∉ s.seen) : (s.enter node).number node = s.seen.length := by
  rw [Search.number, Search.enter, List.idxOf_append_of_notMem unseen, List.idxOf_cons_self,
    Nat.add_zero]

structure Sound (g : Graph) (path : List String) (s : Search) : Prop where
  distinct : s.seen.Nodup
  known : s.seen ⊆ g.nodes
  parted : (s.stack ++ s.components.flatten).Perm s.seen
  listed : g.Listed s.components
  active : path ⊆ s.stack
  left : ∀ node ∈ s.seen, node ∉ path → g.next node ⊆ s.seen
  above : s.stack.Pairwise fun later earlier => g.Leads earlier later
  back : ∀ node ∈ s.stack, ∃ active ∈ path, g.Leads node active

theorem Sound.begin (g : Graph) : g.Sound [] {} where
  distinct := List.nodup_nil
  known := List.nil_subset _
  parted := .refl _
  listed := listedNil g
  active := List.nil_subset _
  left := by simp
  above := .nil
  back := by simp

theorem Sound.stackSeen (sound : g.Sound path s) (stacked : node ∈ s.stack) : node ∈ s.seen :=
  sound.parted.subset (List.mem_append_left _ stacked)

theorem Sound.place (sound : g.Sound path s) (seen : node ∈ s.seen) :
    node ∈ s.stack ∨ node ∈ s.components.flatten :=
  List.mem_append.1 (sound.parted.symm.subset seen)

theorem Sound.apart (sound : g.Sound path s) (stacked : node ∈ s.stack) :
    node ∉ s.components.flatten := fun complete =>
  (List.nodup_append.1 (sound.parted.nodup_iff.2 sound.distinct)).2.2 node stacked node complete rfl

theorem Sound.stackDistinct (sound : g.Sound path s) : s.stack.Nodup :=
  (List.nodup_append.1 (sound.parted.nodup_iff.2 sound.distinct)).1

structure Ready (g : Graph) (path : List String) (s : Search) (node : String) : Prop where
  sound : g.Sound path s
  known : node ∈ g.nodes
  unseen : node ∉ s.seen
  leads : ∀ active ∈ path, g.Leads active node

theorem Ready.room (ready : g.Ready path s node) : s.seen.length < g.nodes.length := by
  have distinct : (node :: s.seen).Nodup := List.nodup_cons.2 ⟨ready.unseen, ready.sound.distinct⟩
  have within : node :: s.seen ⊆ g.nodes := List.cons_subset.2 ⟨ready.known, ready.sound.known⟩
  exact (List.subperm_of_subset distinct within).length_le

theorem Ready.entered (ready : g.Ready path s node) : g.Sound (node :: path) (s.enter node) where
  distinct := by
    have last := (List.perm_append_singleton node s.seen).nodup_iff
    exact last.2 (List.nodup_cons.2 ⟨ready.unseen, ready.sound.distinct⟩)
  known := List.append_subset.2 ⟨ready.sound.known, by simpa using ready.known⟩
  parted := (ready.sound.parted.cons node).trans (List.perm_append_singleton node s.seen).symm
  listed := ready.sound.listed
  active := List.cons_subset_cons node ready.sound.active
  left := by
    intro one seen idle
    have other : one ≠ node := List.ne_of_not_mem_cons idle
    have old : one ∈ s.seen := by simpa [Search.enter, other] using seen
    have inactive : one ∉ path := List.not_mem_of_not_mem_cons idle
    exact List.subset_append_of_subset_left _ (ready.sound.left one old inactive)
  above := by
    refine List.pairwise_cons.2 ⟨fun earlier stacked => ?_, ready.sound.above⟩
    obtain ⟨active, member, back⟩ := ready.sound.back earlier stacked
    exact back.trans (ready.leads active member)
  back := by
    intro one stacked
    rcases List.mem_cons.1 stacked with rfl | old
    · exact ⟨one, .head _, .refl⟩
    · obtain ⟨active, member, back⟩ := ready.sound.back one old
      exact ⟨active, .tail _ member, back⟩

/-- What came onto the stack since `s` leads back to nothing with a number below `low`. -/
structure Grown (g : Graph) (path : List String) (s : Search) (low : Nat) (new : List String)
    (t : Search) : Prop where
  sound : g.Sound path t
  seen : s.seen <+: t.seen
  stack : t.stack = new ++ s.stack
  fresh : ∀ node ∈ new, node ∉ s.seen
  lowest : ∀ node ∈ new, ∀ base ∈ g.next node, base ∈ s.stack → low ≤ s.number base

theorem Grown.refl (sound : g.Sound path s) (low : Nat) : g.Grown path s low [] s :=
  ⟨sound, List.prefix_rfl, rfl, by simp, by simp⟩

theorem Grown.lower (grown : g.Grown path s low new t) (less : reached ≤ low) :
    g.Grown path s reached new t where
  sound := grown.sound
  seen := grown.seen
  stack := grown.stack
  fresh := grown.fresh
  lowest node member base joins stacked :=
    Nat.le_trans less (grown.lowest node member base joins stacked)

theorem Grown.stackKept (grown : g.Grown path s low new t) (stacked : node ∈ s.stack) :
    node ∈ t.stack :=
  grown.stack ▸ List.mem_append_right new stacked

theorem Grown.cut (grown : g.Grown path (s.enter node) low new t) :
    t.stack = (new ++ [node]) ++ s.stack := by
  simp [grown.stack, Search.enter]

theorem Grown.trans {before after : List String} (sound : g.Sound path s)
    (first : g.Grown path s low before t) (second : g.Grown path t low after u) :
    g.Grown path s low (after ++ before) u where
  sound := second.sound
  seen := first.seen.trans second.seen
  stack := by rw [second.stack, first.stack, List.append_assoc]
  fresh := by
    intro node member
    rcases List.mem_append.1 member with late | early
    · exact fun seen => second.fresh node late (first.seen.subset seen)
    · exact first.fresh node early
  lowest := by
    intro node member base joins stacked
    rcases List.mem_append.1 member with late | early
    · rw [← numberKept first.seen (sound.stackSeen stacked)]
      exact second.lowest node late base joins (first.stackKept stacked)
    · exact first.lowest node early base joins stacked

def Returns (g : Graph) (s : Search) (node : String) (low : Nat) : Prop :=
  ∃ base ∈ s.stack, s.number base = low ∧ g.Leads node base

theorem Grown.returns (sound : g.Sound path s) (grown : g.Grown path s low new t)
    (returns : g.Returns s node low) (found : reached = t.seen.length ∨ g.Returns t node reached) :
    g.Returns s node (min low reached) := by
  rcases Nat.le_total low reached with less | less
  · rwa [Nat.min_eq_left less]
  · rw [Nat.min_eq_right less]
    obtain ⟨held, below, same, _⟩ := returns
    have early : reached < s.seen.length :=
      Nat.lt_of_le_of_lt less (same ▸ numberLow (sound.stackSeen below))
    rcases found with last | ⟨base, stacked, rfl, leads⟩
    · have longer := grown.seen.length_le
      omega
    · have seen := numberEarly grown.seen early
      rw [grown.stack] at stacked
      have old := (List.mem_append.1 stacked).resolve_left fun late => grown.fresh base late seen
      exact ⟨base, old, (numberKept grown.seen seen).symm, leads⟩

structure Visited (g : Graph) (path : List String) (s : Search) (node : String) (low : Nat)
    (t : Search) : Prop where
  grown : ∃ new, g.Grown path s low new t
  met : node ∈ t.seen
  low : low = s.seen.length ∨ g.Returns s node low

/-- A search that is in `node`, which it entered at `s`, with the pending successors still to be
followed. -/
structure Followed (g : Graph) (path : List String) (s : Search) (node : String)
    (pending : List String) (low : Nat) (t : Search) : Prop where
  grown : ∃ new, g.Grown (node :: path) (s.enter node) low new t
  met : ∀ other ∈ g.next node, other ∈ pending ∨
    other ∈ t.seen ∧ (other ∈ s.stack → low ≤ s.number other)
  low : g.Returns (s.enter node) node low

theorem Ready.followed (ready : g.Ready path s node) :
    g.Followed path s node (g.next node) s.seen.length (s.enter node) where
  grown := ⟨[], .refl ready.entered _⟩
  met _ joins := .inl joins
  low := ⟨node, .head _, numberEntered ready.unseen, .refl⟩

theorem Followed.seen (followed : g.Followed path s node pending low t) : s.seen <+: t.seen := by
  obtain ⟨new, grown⟩ := followed.grown
  exact (List.prefix_append s.seen [node]).trans grown.seen

theorem Followed.ready (ready : g.Ready path s node)
    (followed : g.Followed path s node pending low t) (joins : other ∈ g.next node)
    (unseen : other ∉ t.seen) : g.Ready (node :: path) t other where
  sound := by
    obtain ⟨new, grown⟩ := followed.grown
    exact grown.sound
  known := nextKnown joins
  unseen := unseen
  leads := by
    intro active member
    rcases List.mem_cons.1 member with rfl | old
    · exact .single joins
    · exact (ready.leads active old).tail joins

theorem Followed.pass {lower : Nat} (followed : g.Followed path s node (other :: pending) low t)
    (less : lower ≤ low) (kept : t.seen ⊆ u.seen) (met : other ∈ u.seen)
    (least : other ∈ s.stack → lower ≤ s.number other) :
    ∀ one ∈ g.next node, one ∈ pending ∨
      one ∈ u.seen ∧ (one ∈ s.stack → lower ≤ s.number one) := by
  intro one joins
  rcases followed.met one joins with due | ⟨seen, old⟩
  · rcases List.mem_cons.1 due with rfl | later
    · exact .inr ⟨met, least⟩
    · exact .inl later
  · exact .inr ⟨kept seen, fun stacked => Nat.le_trans less (old stacked)⟩

theorem Followed.visit (ready : g.Ready path s node)
    (followed : g.Followed path s node (other :: pending) low t) (joins : other ∈ g.next node)
    (unseen : other ∉ t.seen) (visited : g.Visited (node :: path) t other reached u) :
    g.Followed path s node pending (min low reached) u := by
  obtain ⟨before, outer⟩ := followed.grown
  obtain ⟨after, inner⟩ := visited.grown
  have both := Grown.trans ready.entered (outer.lower (Nat.min_le_left low reached))
    (inner.lower (Nat.min_le_right low reached))
  have above : other ∉ s.stack := fun stacked =>
    unseen (followed.seen.subset (ready.sound.stackSeen stacked))
  have met := followed.pass (Nat.min_le_left low reached) inner.seen.subset visited.met
    fun stacked => absurd stacked above
  refine ⟨⟨after ++ before, both⟩, met, ?_⟩
  refine outer.returns ready.entered followed.low (visited.low.imp_right ?_)
  rintro ⟨base, stacked, same, leads⟩
  exact ⟨base, stacked, same, leads.head joins⟩

theorem Followed.stacked (ready : g.Ready path s node)
    (followed : g.Followed path s node (other :: pending) low t) (joins : other ∈ g.next node)
    (stacked : other ∈ t.stack) :
    g.Followed path s node pending (min low (t.number other)) t := by
  obtain ⟨new, grown⟩ := followed.grown
  have least : other ∈ s.stack → min low (t.number other) ≤ s.number other := by
    intro old
    rw [← numberKept followed.seen (ready.sound.stackSeen old)]
    exact Nat.min_le_right _ _
  have met := followed.pass (Nat.min_le_left low (t.number other)) (List.Subset.refl _)
    (grown.sound.stackSeen stacked) least
  exact ⟨⟨new, grown.lower (Nat.min_le_left _ _)⟩, met,
    grown.returns ready.entered followed.low (.inr ⟨other, stacked, rfl, .single joins⟩)⟩

theorem Followed.complete (followed : g.Followed path s node (other :: pending) low t)
    (seen : other ∈ t.seen) (apart : other ∉ t.stack) :
    g.Followed path s node pending low t := by
  obtain ⟨new, grown⟩ := followed.grown
  exact ⟨⟨new, grown⟩, followed.pass (Nat.le_refl low) (List.Subset.refl _) seen fun old =>
    absurd (grown.stackKept (.tail _ old)) apart, followed.low⟩

theorem Followed.leaves (ready : g.Ready path s node) (followed : g.Followed path s node [] low t)
    (grown : g.Grown (node :: path) (s.enter node) low new t) :
    ∀ one ∈ new ++ [node], ∀ other ∈ g.next one,
      other ∈ t.seen ∧ (other ∈ s.stack → low ≤ s.number other) := by
  intro one member other joins
  rcases List.mem_append.1 member with above | last
  · have unseen := grown.fresh one above
    have idle : one ∉ node :: path := fun active =>
      unseen (ready.entered.stackSeen (ready.entered.active active))
    have seen : one ∈ t.seen := grown.sound.stackSeen (grown.stack ▸ List.mem_append_left _ above)
    refine ⟨grown.sound.left one seen idle joins, fun old => ?_⟩
    have kept : (s.enter node).number other = s.number other :=
      numberKept (List.prefix_append s.seen [node]) (ready.sound.stackSeen old)
    exact kept ▸ grown.lowest one above other joins (.tail _ old)
  · cases List.mem_singleton.1 last
    exact (followed.met other joins).resolve_left List.not_mem_nil

theorem Followed.enclosed (ready : g.Ready path s node)
    (followed : g.Followed path s node [] s.seen.length t)
    (grown : g.Grown (node :: path) (s.enter node) s.seen.length new t) :
    ∀ one ∈ new ++ [node], ∀ other ∈ g.next one,
      other ∈ new ++ [node] ∨ other ∈ t.components.flatten := by
  intro one member other joins
  obtain ⟨seen, least⟩ := followed.leaves ready grown one member other joins
  have notBelow : other ∉ s.stack := fun old =>
    absurd (numberLow (ready.sound.stackSeen old)) (Nat.not_lt.2 (least old))
  refine (grown.sound.place seen).imp_left fun stacked => ?_
  rw [grown.cut] at stacked
  exact (List.mem_append.1 stacked).resolve_right notBelow

theorem Followed.onward (ready : g.Ready path s node)
    (followed : g.Followed path s node [] s.seen.length t)
    (grown : g.Grown (node :: path) (s.enter node) s.seen.length new t) {one : String}
    (member : one ∈ new ++ [node]) (leads : g.Leads one other) :
    other ∈ new ++ [node] ∨ other ∈ t.components.flatten := by
  induction leads with
  | refl => exact .inl member
  | tail _ joins ih =>
    rcases ih with inside | complete
    · exact followed.enclosed ready grown _ inside _ joins
    · exact .inr (grown.sound.listed.leads complete (.single joins))

theorem Grown.down (grown : g.Grown path (s.enter node) low new t)
    (member : other ∈ new ++ [node]) : g.Leads node other := by
  rcases List.mem_append.1 member with above | last
  · have ordered := grown.sound.above
    rw [grown.stack] at ordered
    exact (List.pairwise_append.1 ordered).2.2 other above node (.head _)
  · cases List.mem_singleton.1 last
    exact .refl

-- Every node on the stack leads back to the path, but from this component no way leaves for the
-- path below the node.
theorem Followed.up (ready : g.Ready path s node)
    (followed : g.Followed path s node [] s.seen.length t)
    (grown : g.Grown (node :: path) (s.enter node) s.seen.length new t)
    (member : other ∈ new ++ [node]) : g.Leads other node := by
  have stacked : other ∈ t.stack := grown.cut ▸ List.mem_append_left _ member
  obtain ⟨active, onPath, back⟩ := grown.sound.back other stacked
  rcases List.mem_cons.1 onPath with rfl | below
  · exact back
  · have old : active ∈ s.stack := ready.sound.active below
    have distinct := grown.sound.stackDistinct
    rw [grown.cut] at distinct
    rcases followed.onward ready grown member back with inside | complete
    · exact absurd rfl ((List.nodup_append.1 distinct).2.2 active inside active old)
    · exact absurd complete (grown.sound.apart (grown.cut ▸ List.mem_append_right _ old))

theorem Followed.component (ready : g.Ready path s node)
    (followed : g.Followed path s node [] s.seen.length t)
    (grown : g.Grown (node :: path) (s.enter node) s.seen.length new t) :
    ∀ one ∈ new ++ [node], ∀ other,
      other ∈ new ++ [node] ↔ g.Leads one other ∧ g.Leads other one := by
  intro one member other
  constructor
  · intro inside
    exact ⟨(followed.up ready grown member).trans (grown.down inside),
      (followed.up ready grown inside).trans (grown.down member)⟩
  · rintro ⟨there, back⟩
    refine (followed.onward ready grown member there).resolve_right fun complete => ?_
    have stacked : one ∈ t.stack := grown.cut ▸ List.mem_append_left _ member
    exact grown.sound.apart stacked (grown.sound.listed.leads complete back)

theorem Grown.parted (grown : g.Grown path (s.enter node) low new t) :
    (s.stack ++ (t.components ++ [new ++ [node]]).flatten).Perm t.seen := by
  have last : (t.components ++ [new ++ [node]]).flatten =
      t.components.flatten ++ (new ++ [node]) := by simp
  have held := grown.sound.parted
  rw [grown.cut, List.append_assoc] at held
  rw [last, ← List.append_assoc]
  exact List.perm_append_comm.trans held

theorem closeExact {below : List String} (stack : t.stack = new ++ node :: below)
    (apart : node ∉ new) :
    t.close node = ⟨t.seen, below, t.components ++ [new ++ [node]]⟩ := by
  have passed : ∀ other ∈ new, decide (other ≠ node) = true :=
    fun other member => decide_eq_true fun same => apart (same ▸ member)
  rw [Search.close, stack, List.dropWhile_append_of_pos passed, List.takeWhile_append_of_pos passed]
  simp

theorem Followed.left (ready : g.Ready path s node) (followed : g.Followed path s node [] low t) :
    ∀ one ∈ t.seen, one ∉ path → g.next one ⊆ t.seen := by
  obtain ⟨new, grown⟩ := followed.grown
  intro one seen idle other joins
  by_cases same : one = node
  · subst same
    exact (followed.leaves ready grown one (by simp) other joins).1
  · exact grown.sound.left one seen (List.not_mem_cons_of_ne_of_not_mem same idle) joins

theorem Followed.closed (ready : g.Ready path s node)
    (followed : g.Followed path s node [] s.seen.length t) :
    g.Visited path s node s.seen.length (t.close node) := by
  obtain ⟨new, grown⟩ := followed.grown
  have apart : node ∉ new := fun above =>
    grown.fresh node above (ready.entered.stackSeen (.head _))
  have left := followed.left ready
  have met := grown.seen.subset (ready.entered.stackSeen (.head _))
  have exact := followed.component ready grown
  have leaves := followed.enclosed ready grown
  rw [closeExact grown.stack apart]
  refine ⟨⟨[], ?_, followed.seen, rfl, by simp, by simp⟩, met, .inl rfl⟩
  exact {
    distinct := grown.sound.distinct
    known := grown.sound.known
    parted := grown.parted
    listed := grown.sound.listed.concat (by simp) exact leaves
    active := ready.sound.active
    left := left
    above := ready.sound.above
    back := ready.sound.back }

theorem Followed.stays (ready : g.Ready path s node)
    (followed : g.Followed path s node [] low t) (lower : low ≠ s.seen.length) :
    g.Visited path s node low t := by
  obtain ⟨new, grown⟩ := followed.grown
  obtain ⟨base, stacked, same, leads⟩ := followed.low
  have below : base ∈ s.stack := by
    refine (List.mem_cons.1 stacked).resolve_left fun self => lower ?_
    rw [← same, self, numberEntered ready.unseen]
  have number : s.number base = low :=
    same ▸ (numberKept (List.prefix_append s.seen [node]) (ready.sound.stackSeen below)).symm
  have sound : g.Sound path t := { grown.sound with
    active := fun active onPath => grown.sound.active (.tail _ onPath)
    left := followed.left ready
    back := by
      intro one held
      obtain ⟨active, onPath, back⟩ := grown.sound.back one held
      rcases List.mem_cons.1 onPath with rfl | old
      · obtain ⟨earlier, member, further⟩ := ready.sound.back base below
        exact ⟨earlier, member, (back.trans leads).trans further⟩
      · exact ⟨active, old, back⟩ }
  refine ⟨⟨new ++ [node], sound, followed.seen, grown.cut, ?_, ?_⟩, ?_,
    .inr ⟨base, below, number, leads⟩⟩
  · intro one member seen
    rcases List.mem_append.1 member with above | last
    · exact grown.fresh one above (List.mem_append_left _ seen)
    · exact ready.unseen (List.mem_singleton.1 last ▸ seen)
  · exact fun one member other joins => (followed.leaves ready grown one member other joins).2
  · exact grown.seen.subset (ready.entered.stackSeen (.head _))

theorem followFollows {room : Nat} (ready : g.Ready path s node)
    (space : g.nodes.length ≤ s.seen.length + (room + 1))
    (visits : ∀ {path s node}, g.Ready path s node → g.nodes.length ≤ s.seen.length + room →
      g.Visited path s node (g.visit room node s).1 (g.visit room node s).2)
    (followed : g.Followed path s node pending low t)
    (joins : ∀ other ∈ pending, other ∈ g.next node) :
    g.Followed path s node [] (follow (g.visit room) pending low t).1
      (follow (g.visit room) pending low t).2 := by
  induction pending generalizing low t with
  | nil => exact followed
  | cons other rest ih =>
    have joined := joins other (.head _)
    have later : ∀ one ∈ rest, one ∈ g.next node := fun one member => joins one (.tail _ member)
    unfold follow
    split
    · rename_i unseen
      have longer : s.seen.length + 1 ≤ t.seen.length := by
        obtain ⟨new, grown⟩ := followed.grown
        simpa [Search.enter] using grown.seen.length_le
      have visited := visits (followed.ready ready joined unseen) (by omega)
      exact ih (followed.visit ready joined unseen visited) later
    · rename_i met
      split
      · exact ih (followed.stacked ready joined ‹_›) later
      · exact ih (followed.complete (not_not.1 met) ‹_›) later

theorem visitVisits {room : Nat} (ready : g.Ready path s node)
    (space : g.nodes.length ≤ s.seen.length + room) :
    g.Visited path s node (g.visit room node s).1 (g.visit room node s).2 := by
  induction room generalizing path s node with
  | zero =>
    have left := ready.room
    omega
  | succ room ih =>
    have followed := followFollows ready space ih ready.followed fun _ => id
    unfold visit
    generalize follow (g.visit room) (g.next node) s.seen.length (s.enter node) = ended at followed
    obtain ⟨low, t⟩ := ended
    dsimp only
    split
    · rename_i first
      subst first
      exact followed.closed ready
    · exact followed.stays ready ‹_›

theorem Sound.ended (sound : g.Sound [] s) : s.stack = [] := by
  refine List.eq_nil_iff_forall_not_mem.2 fun node stacked => ?_
  obtain ⟨active, member, _⟩ := sound.back node stacked
  exact List.not_mem_nil member

theorem searchSound {nodes : List String} (sound : g.Sound [] s) (known : nodes ⊆ g.nodes) :
    g.Sound [] (g.search nodes s) ∧ s.seen ⊆ (g.search nodes s).seen ∧
      nodes ⊆ (g.search nodes s).seen := by
  induction nodes generalizing s with
  | nil => exact ⟨sound, List.Subset.refl _, List.nil_subset _⟩
  | cons node rest ih =>
    obtain ⟨first, later⟩ := List.cons_subset.1 known
    unfold search
    split
    · rename_i seen
      obtain ⟨last, kept, met⟩ := ih sound later
      exact ⟨last, kept, List.cons_subset.2 ⟨kept seen, met⟩⟩
    · rename_i unseen
      have visited := visitVisits ⟨sound, first, unseen, by simp⟩ (Nat.le_add_left _ _)
      obtain ⟨new, grown⟩ := visited.grown
      obtain ⟨last, kept, met⟩ := ih grown.sound later
      exact ⟨last, fun one seen => kept (grown.seen.subset seen),
        List.cons_subset.2 ⟨kept visited.met, met⟩⟩

theorem componentsExact (g : Graph) :
    g.Listed g.components ∧ g.components.flatten.Perm g.nodes := by
  obtain ⟨sound, _, met⟩ := searchSound (Sound.begin g) (List.Subset.refl g.nodes)
  have parted := sound.parted
  rw [sound.ended, List.nil_append] at parted
  have every : (g.search g.nodes {}).seen.Perm g.nodes :=
    (List.perm_ext_iff_of_nodup sound.distinct g.distinct).2 fun _ =>
      ⟨fun seen => sound.known seen, fun known => met known⟩
  exact ⟨sound.listed, parted.trans every⟩

end TablePlan.Graph
