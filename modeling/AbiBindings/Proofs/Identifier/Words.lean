import AbiBindings.Proofs.Identifier.Assign

/-!
Identifiers as words: everything that the naming of entries makes consists of ASCII letters, digits
and underscores.
-/

namespace AbiBindings.Identifier

def IsWord (t : Text) : Prop := ∀ c ∈ t, c.isIdentifierPart = true

instance (t : Text) : Decidable (IsWord t) :=
  inferInstanceAs (Decidable (∀ c ∈ t, c.isIdentifierPart = true))

theorem isWord_sanitize (snake : Bool) (reserved : List Text) (name : Text) :
    IsWord (sanitize snake reserved name) := fun _ hc => isIdentifierPart_of_mem_sanitize hc

theorem IsWord.numbered {candidate : Text} (h : IsWord candidate) (number : Nat) :
    IsWord (numbered candidate number) := by
  intro c hc
  rcases mem_numbered hc with hc | rfl | hc
  · exact h c hc
  · rfl
  · exact CodePoint.isIdentifierPart_of_isDigit hc

theorem isWord_of_mem_assign {snake : Bool} {reserved : List Text}
    {aliases : List (Text × Text)} {entries : List Named} {identifier : Text}
    (h : identifier ∈ assign snake reserved aliases entries) : IsWord identifier := by
  rw [← map_snd_zip_assign] at h
  obtain ⟨p, hp, rfl⟩ := List.mem_map.mp h
  obtain ⟨n, k, heq, -, -⟩ := exists_numbered_of_mem_zip_assign hp
  obtain ⟨style, word, hbase⟩ := exists_base_eq snake reserved aliases p.1
  rw [heq, hbase]
  exact ((isWord_sanitize style reserved word).numbered n).numbered k

end AbiBindings.Identifier
