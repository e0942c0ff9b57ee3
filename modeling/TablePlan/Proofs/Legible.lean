import TablePlan.Proofs.Sequence
import TablePlan.Text.Quoted
/-! Spellings that can be read back whatever stands behind them: numbers in front of a sign that is
no digit, characters as they are shown, and characters that are escaped once more. A character is
shown as itself, as a backslash and a letter, or as a backslash and a number, and which of these it
is can be seen from the first two signs. -/
namespace TablePlan.Text

variable {α : Type} {spell : α → List Char} {stop : Char} {base n k : Nat}

/-- What is spelled out can be told from the text, and where it ends. -/
def Legible (spell : α → List Char) : Prop :=
  ∀ one other behind rest, spell one ++ behind = spell other ++ rest → one = other ∧ behind = rest

def Avoids (spell : α → List Char) (stop : Char) : Prop :=
  ∀ one behind rest, spell one ++ behind ≠ stop :: rest

theorem Legible.all (legible : Legible spell) (avoids : Avoids spell stop) {list others : List α}
    {behind rest : List Char}
    (same : list.flatMap spell ++ stop :: behind = others.flatMap spell ++ stop :: rest) :
    list = others ∧ behind = rest := by
  induction list generalizing others with
  | nil =>
    cases others with
    | nil => exact ⟨rfl, (List.cons.inj same).2⟩
    | cons other later =>
      rw [List.flatMap_cons, List.append_assoc] at same
      exact absurd same.symm (avoids other _ _)
  | cons one later ih =>
    rw [List.flatMap_cons, List.append_assoc] at same
    cases others with
    | nil => exact absurd same (avoids one _ _)
    | cons other after =>
      rw [List.flatMap_cons, List.append_assoc] at same
      obtain ⟨rfl, tail⟩ := legible one other _ _ same
      obtain ⟨rfl, last⟩ := ih tail
      exact ⟨rfl, last⟩

theorem digitCharInjective {d e : Nat} (left : d < 16) (right : e < 16)
    (same : Nat.digitChar d = Nat.digitChar e) : d = e := by
  have each : ∀ d e : Fin 16, Nat.digitChar d = Nat.digitChar e → d = e := by decide
  exact Fin.mk.inj (each ⟨d, left⟩ ⟨e, right⟩ same)

theorem digitsLong (low : 1 < base) (long : base ≤ n) (c : Char) : Nat.toDigits base n ≠ [c] := by
  intro same
  rw [Nat.toDigits_of_base_le low long, ← List.nil_append [c]] at same
  exact Nat.toDigits_ne_nil (List.append_inj' same rfl).1

theorem digitsInjective (low : 1 < base) (high : base ≤ 16)
    (same : Nat.toDigits base n = Nat.toDigits base k) : n = k := by
  induction n using Nat.strongRecOn generalizing k with
  | ind n ih =>
    rcases Nat.lt_or_ge n base with short | long
    · rw [Nat.toDigits_of_lt_base short] at same
      rcases Nat.lt_or_ge k base with also | other
      · rw [Nat.toDigits_of_lt_base also] at same
        exact digitCharInjective (by omega) (by omega) (List.cons.inj same).1
      · exact absurd same.symm (digitsLong low other _)
    · rcases Nat.lt_or_ge k base with short | also
      · rw [Nat.toDigits_of_lt_base short] at same
        exact absurd same (digitsLong low long _)
      · rw [Nat.toDigits_of_base_le low long, Nat.toDigits_of_base_le low also] at same
        obtain ⟨front, last⟩ := List.append_inj' same rfl
        have quotients := ih (n / base) (Nat.div_lt_self (by omega) low) front
        have remainders := digitCharInjective ((Nat.mod_lt n (by omega)).trans_le high)
          ((Nat.mod_lt k (by omega)).trans_le high) (List.cons.inj last).1
        rw [← Nat.div_add_mod n base, quotients, remainders, Nat.div_add_mod]

theorem digitNamed (low : 1 < base) (high : base ≤ 16) {c : Char}
    (inside : c ∈ Nat.toDigits base n) : ∃ d : Fin 16, c = Nat.digitChar d := by
  induction n using Nat.strongRecOn with
  | ind n ih =>
    rcases Nat.lt_or_ge n base with short | long
    · rw [Nat.toDigits_of_lt_base short] at inside
      exact ⟨⟨n, by omega⟩, List.mem_singleton.1 inside⟩
    · rw [Nat.toDigits_of_base_le low long] at inside
      rcases List.mem_append.1 inside with front | last
      · exact ih (n / base) (Nat.div_lt_self (by omega) low) front
      · exact ⟨⟨n % base, (Nat.mod_lt n (by omega)).trans_le high⟩, List.mem_singleton.1 last⟩

theorem digitsLegible (low : 1 < base) (high : base ≤ 16)
    (apart : ∀ d : Fin 16, Nat.digitChar d ≠ stop) :
    Legible fun n => Nat.toDigits base n ++ [stop] := by
  intro n k behind rest same
  simp only [List.append_assoc, List.singleton_append] at same
  have fresh (n : Nat) : stop ∉ Nat.toDigits base n := fun inside => by
    obtain ⟨d, named⟩ := digitNamed low high inside
    exact apart d named.symm
  obtain ⟨digits, later⟩ := cutFirst (fresh n) (fresh k) same
  exact ⟨digitsInjective low high digits, later⟩

def letters : List (Char × Char) :=
  [('\x00', '0'), ('\t', 't'), ('\r', 'r'), ('\n', 'n'), ('\\', '\\'), ('"', '"')]

inductive Form (c : Char) : List Char → Prop where
  | plain (bare : c ≠ '\\') (unquoted : c ≠ '"') : Form c [c]
  | letter {letter : Char} (listed : (c, letter) ∈ letters) : Form c ['\\', letter]
  | number : Form c (codePoint c)

theorem shownForm (c : Char) : Form c (shown c) := by
  by_cases listed : ∃ letter, (c, letter) ∈ letters
  · obtain ⟨letter, listed⟩ := listed
    have each : ∀ pair ∈ letters, shown pair.1 = ['\\', pair.2] := by decide
    rw [each _ listed]
    exact .letter listed
  · have apart : c ≠ '\x00' ∧ c ≠ '\t' ∧ c ≠ '\r' ∧ c ≠ '\n' ∧ c ≠ '\\' ∧ c ≠ '"' := by
      simpa [letters, not_or, exists_or] using listed
    obtain ⟨nul, tab, turn, line, slash, quote⟩ := apart
    simp only [shown, if_neg nul, if_neg tab, if_neg turn, if_neg line, if_neg slash, if_neg quote]
    split
    · exact .number
    · exact .plain slash quote

theorem codePointLegible : Legible codePoint := by
  intro one other behind rest same
  have parts (c : Char) : codePoint c =
      ['\\', 'u', '\x7b'] ++ (Nat.toDigits 16 c.toNat ++ ['\x7d']) := rfl
  rw [parts one, parts other, List.append_assoc _ _ behind, List.append_assoc _ _ rest] at same
  have apart : ∀ d : Fin 16, Nat.digitChar d ≠ '\x7d' := by decide
  obtain ⟨number, later⟩ := digitsLegible (by decide) (Nat.le_refl 16) apart one.toNat other.toNat
    behind rest (List.append_cancel_left same)
  exact ⟨Char.toNat_inj.1 number, later⟩

theorem letterUnnumbered : ∀ pair ∈ letters, pair.2 ≠ 'u' := by decide

theorem lettersDistinct :
    ∀ one ∈ letters, ∀ other ∈ letters, one.2 = other.2 → one.1 = other.1 := by
  decide

theorem shownLegible : Legible shown := by
  intro one other behind rest same
  have left := shownForm one
  have right := shownForm other
  generalize shown one = text at same left
  generalize shown other = another at same right
  cases left with
  | plain bare =>
    cases right with
    | plain => exact List.cons.inj same
    | letter | number => exact absurd (List.cons.inj same).1 bare
  | letter listed =>
    cases right with
    | plain bare => exact absurd (List.cons.inj same).1.symm bare
    | letter also =>
      obtain ⟨named, later⟩ := List.cons.inj (List.cons.inj same).2
      exact ⟨lettersDistinct _ listed _ also named, later⟩
    | number =>
      exact absurd (List.cons.inj (List.cons.inj same).2).1 (letterUnnumbered _ listed)
  | number =>
    cases right with
    | plain bare => exact absurd (List.cons.inj same).1.symm bare
    | letter also =>
      exact absurd (List.cons.inj (List.cons.inj same).2).1.symm (letterUnnumbered _ also)
    | number => exact codePointLegible one other behind rest same

theorem shownUnquoted : Avoids shown '"' := by
  intro c behind rest same
  have form := shownForm c
  generalize shown c = text at same form
  cases form with
  | plain _ apart => exact apart (List.cons.inj same).1
  | letter | number => cases (List.cons.inj same).1

def slash (c : Char) : List Char := if c = '"' ∨ c = '\\' then ['\\', c] else [c]

theorem slashLegible : Legible slash := by
  intro one other behind rest same
  unfold slash at same
  split at same <;> split at same
  · exact List.cons.inj (List.cons.inj same).2
  · rename_i bare
    exact absurd (.inr (List.cons.inj same).1.symm) bare
  · rename_i bare _
    exact absurd (.inr (List.cons.inj same).1) bare
  · exact List.cons.inj same

theorem slashUnquoted : Avoids slash '"' := by
  intro c behind rest same
  unfold slash at same
  split at same
  · cases (List.cons.inj same).1
  · rename_i bare
    exact bare (.inl (List.cons.inj same).1)

theorem slashedLegible : Legible fun text : List Char => '"' :: slashed (quoted text) ++ ['"'] := by
  intro one other behind rest same
  have outer : slashed (quoted one) ++ ['"'] ++ behind = slashed (quoted other) ++ ['"'] ++ rest :=
    (List.cons.inj same).2
  rw [List.append_assoc, List.append_assoc] at outer
  obtain ⟨inner, later⟩ := slashLegible.all slashUnquoted outer
  exact ⟨(shownLegible.all shownUnquoted (List.cons.inj inner).2).1, later⟩

end TablePlan.Text
