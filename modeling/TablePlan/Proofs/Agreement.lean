import Mathlib.Data.List.Nodup
import Mathlib.Data.List.Perm.Subperm
import TablePlan.Proofs.Keyed
import TablePlan.Schema.Basic
/-! Schemas that agree: their fields are the same, in whatever order. The check looks up the fields
of one schema in the other, and their number says that no field is left over there, so that it does
not matter which of the two is looked up in which. -/
namespace TablePlan.Schema

variable {s other : Schema} {name : String} {type : FieldType}

theorem fieldFound : s.find? name = some type ↔ (name, type) ∈ s.fields :=
  Keyed.findExact s.distinct

theorem fieldsDistinct (s : Schema) : s.fields.Nodup :=
  List.Nodup.of_map Prod.fst s.distinct

theorem agreesExact : s.agrees other = true ↔ s.fields.Perm other.fields := by
  constructor
  · intro agreed
    simp only [agrees, Bool.and_eq_true, beq_iff_eq, List.all_eq_true] at agreed
    obtain ⟨sizes, found⟩ := agreed
    have within : s.fields ⊆ other.fields := fun ⟨name, type⟩ member =>
      fieldFound.1 (found (name, type) member)
    exact (List.subperm_of_subset s.fieldsDistinct within).perm_of_length_le
      (Nat.le_of_eq sizes.symm)
  · intro same
    simp only [agrees, Bool.and_eq_true, beq_iff_eq, List.all_eq_true]
    exact ⟨same.length_eq, fun ⟨name, type⟩ member => fieldFound.2 (same.mem_iff.1 member)⟩

theorem lookupsExact :
    (∀ name, s.find? name = other.find? name) ↔ s.fields.Perm other.fields := by
  rw [List.perm_ext_iff_of_nodup s.fieldsDistinct other.fieldsDistinct]
  constructor
  · rintro same ⟨name, type⟩
    rw [← fieldFound, ← fieldFound, same]
  · intro same name
    exact Option.ext fun type => by rw [fieldFound, fieldFound, same]

theorem sameFieldsExact : s.sameFields other = true ↔ s.fields.Perm other.fields := by
  simp only [sameFields, Keyed.same, decide_eq_true_eq]
  refine ⟨fun ⟨sizes, found⟩ => agreesExact.1 ?_, fun same => ⟨same.length_eq, fun name _ => ?_⟩⟩
  · simp only [agrees, Bool.and_eq_true, beq_iff_eq, List.all_eq_true]
    refine ⟨sizes, fun ⟨name, type⟩ member => ?_⟩
    exact (found name (List.mem_map_of_mem member)).symm.trans (fieldFound.2 member)
  · exact lookupsExact.2 same name

theorem agreementEquivalence : Equivalence (fun s other : Schema => s.agrees other = true) ∧
    ∀ s other : Schema, (s.agrees other = true ↔ s.fields.Perm other.fields) ∧
      s.agrees other = other.agrees s ∧ s.agrees other = s.sameFields other ∧
      (s.agrees other = true ↔ ∀ name, s.find? name = other.find? name) := by
  refine ⟨⟨fun s => ?_, fun same => ?_, fun same further => ?_⟩,
    fun s other => ⟨agreesExact, ?_, ?_, ?_⟩⟩
  · exact agreesExact.2 (.refl _)
  · exact agreesExact.2 (agreesExact.1 same).symm
  · exact agreesExact.2 ((agreesExact.1 same).trans (agreesExact.1 further))
  · rw [Bool.eq_iff_iff, agreesExact, agreesExact, List.perm_comm]
  · rw [Bool.eq_iff_iff, agreesExact, sameFieldsExact]
  · rw [agreesExact, lookupsExact]

end TablePlan.Schema
