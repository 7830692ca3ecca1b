import AbiBindings.Proofs.AbiType.Refusal
import AbiBindings.Proofs.Artifact.Loading
import AbiBindings.Proofs.Binding.Sharing
import AbiBindings.Proofs.Config.Aliases
import AbiBindings.Proofs.Contract.Naming
import AbiBindings.Proofs.Signature.Arguments

/-!
Canonical forms as keys. Taking the canonical form is a projection: the forms are exactly the
signatures that it leaves alone, and they are the signatures that functions of a contract have,
where their names can stand in a written signature. So an alias for the signature of a function is
kept under that signature, which is where it is looked for.
-/

namespace AbiBindings

open Outcome

/-- A signature that an alias can be given to as it stands: the alias is kept under the signature
itself, and is found there. -/
structure Config.TakesAlias (signature : Text) : Prop where
  kept : ∀ (config : Config) (word : Text), config.withAlias signature word =
    validated { config with methodAliases := replaceAlias config.methodAliases signature word }
  found : ∀ (config config' : Config) (word : Text), config.withAlias signature word = .ok config' →
    Json.lookup config'.aliases signature = some word

/-- Whatever the pairs before, the alias of the signature that was replaced last is the new one. -/
theorem Config.lookup_putAll_replaceAlias (pairs : List (Text × Text)) (signature word : Text) :
    Json.lookup (Json.putAll [] (replaceAlias pairs signature word)) signature = some word := by
  rw [replaceAlias, Json.putAll, List.foldl_append]
  exact Json.lookup_put_self _ signature word

theorem Config.takesAlias_of_normalize {signature : Text}
    (h : Signature.normalize signature = .ok signature) : TakesAlias signature := by
  have hkept (config : Config) (word : Text) : config.withAlias signature word = validated
      { config with methodAliases := replaceAlias config.methodAliases signature word } := by
    rw [withAlias, h, ok_bind]
  refine ⟨hkept, ?_⟩
  intro config config' word hdone
  rw [hkept] at hdone
  rw [eq_of_validated hdone, aliases]
  exact lookup_putAll_replaceAlias config.methodAliases signature word

/-- The signature of a loaded function is its own canonical form if its name can stand in a written
signature. -/
theorem Contract.normalize_signature {raw : Json} {title : Option Text} {artifact : Artifact}
    {aliases : List (Text × Text)} {contract : Contract}
    (hload : Artifact.load raw title = .ok artifact)
    (hcontract : ofArtifact artifact aliases = .ok contract) {f : NamedFunction}
    (hf : f ∈ contract.functions) (hname : Signature.IsName f.entry.name) :
    Signature.normalize f.signature = .ok f.signature := by
  have hentry : .function f.entry ∈ artifact.abi := by
    rw [← Artifact.mem_functions, ← (functions_ofArtifact hcontract).1]
    exact List.mem_map_of_mem hf
  have htypes : ∀ type ∈ typesOf f.entry.inputs, type.Supported := by
    rw [typesOf, List.forall_mem_map]
    intro param hparam
    exact Artifact.supported_of_load hload hentry (List.mem_append_left _ hparam)
  obtain ⟨identifier, hnamed⟩ := exists_nameFunction hcontract f hf
  obtain ⟨selector, -, heq⟩ := nameFunction_eq_ok.mp hnamed
  have hsignature : f.signature = Signature.canonical f.entry.name (typesOf f.entry.inputs) := by
    rw [← heq, signatureOfFunction]
  rw [hsignature]
  exact Signature.normalize_canonical hname htypes

namespace Signature

/-- The types in an argument list are read on their own, from their canonical spellings. -/
theorem read_of_mem_typesOf {arguments : Text} {parts : List (Text × AbiType)}
    (hread : AbiType.parseText (Text.withoutBlanks arguments) .null none = .ok (.tuple parts))
    {type : AbiType} (htype : type ∈ AbiType.typesOf parts) :
    AbiType.parse (.str type.canonical) .null none = .ok type := by
  obtain ⟨hderives, hsupported⟩ := AbiType.parse_eq_ok.mp hread
  -- without components at hand, no part of the list has a name
  have hnames : parts.map (fun part => (([] : Text), part.2.eraseNames)) = parts.map id := by
    have herased := hderives.eraseNames_eq rfl
    rw [AbiType.eraseNames, AbiType.eraseAllNames_eq_map] at herased
    rw [List.map_id]
    exact AbiType.tuple.inj herased
  obtain ⟨part, hpart, rfl⟩ := List.mem_map.mp htype
  have hsame : part.2.eraseNames = part.2 :=
    congrArg Prod.snd (List.map_inj_left.mp hnames part hpart)
  rw [AbiType.parse_canonical_of_supported (AbiType.supported_tuple.mp hsupported part hpart),
    hsame]

/-- A text is said to be no signature exactly if it does not split. -/
theorem normalize_eq_notSignature {signature refused : Text} :
    normalize signature = .error (.config (.notSignature refused)) ↔
      split? signature = none ∧ refused = signature := by
  cases hsplit : split? signature with
  | none => simp [normalize, hsplit, eq_comm]
  | some pair =>
    obtain ⟨name, arguments⟩ := pair
    refine iff_of_false (fun h => ?_) (by simp)
    rw [normalize, hsplit] at h
    rcases bind_eq_error.mp h with hread | ⟨type, hread, h⟩
    · rcases AbiType.parse_eq_error hread with ⟨_, _, _, hfault, -⟩ | ⟨_, _, hfault, -⟩
      · cases hfault
      · cases hfault
    · obtain ⟨parts, rfl⟩ := (isArguments_of_split? hsplit).exists_tuple hread
      cases h

/-- Taking the canonical form is a projection. The form of a text is its own form, and it is the
signature of the name in the text with the types in its argument list; the signature of a name with
any types that can be read is its own form. The signature of a loaded function whose name can stand
in a written signature is such a form, and takes an alias as it stands. An argument list is read as
nothing but a tuple, so a text is no signature only because it does not split. -/
theorem normalize_projection :
    (∀ signature form, normalize signature = .ok form → normalize form = .ok form ∧
      ∃ name arguments parts, split? signature = some (name, arguments) ∧
        AbiType.parseText (Text.withoutBlanks arguments) .null none = .ok (.tuple parts) ∧
        IsName name ∧
        (∀ type ∈ AbiType.typesOf parts,
          ∃ text components path, AbiType.parse text components path = .ok type) ∧
        form = canonical name (AbiType.typesOf parts)) ∧
    (∀ name types, IsName name →
      (∀ type ∈ types, ∃ text components path, AbiType.parse text components path = .ok type) →
      normalize (canonical name types) = .ok (canonical name types)) ∧
    (∀ raw title artifact aliases contract, Artifact.load raw title = .ok artifact →
      Contract.ofArtifact artifact aliases = .ok contract →
      ∀ f ∈ contract.functions, IsName f.entry.name →
        normalize f.signature = .ok f.signature ∧ Config.TakesAlias f.signature) ∧
    (∀ signature name arguments type, split? signature = some (name, arguments) →
      AbiType.parseText (Text.withoutBlanks arguments) .null none = .ok type →
      ∃ parts, type = .tuple parts) ∧
    ∀ signature refused, normalize signature = .error (.config (.notSignature refused)) ↔
      split? signature = none ∧ refused = signature := by
  refine ⟨?_, ?_, ?_, ?_, ?_⟩
  · intro signature form h
    refine ⟨normalize_normalize h, ?_⟩
    obtain ⟨name, arguments, parts, hsplit, hread, hform⟩ := normalize_eq_ok_iff.mp h
    exact ⟨name, arguments, parts, hsplit, hread, isName_of_split? hsplit,
      fun type htype => ⟨_, _, _, read_of_mem_typesOf hread htype⟩, hform.symm⟩
  · intro name types hname htypes
    apply normalize_canonical hname
    intro type htype
    obtain ⟨text, components, path, hread⟩ := htypes type htype
    exact AbiType.supported_of_parse hread
  · intro raw title artifact aliases contract hload hcontract f hf hname
    have hform := Contract.normalize_signature hload hcontract hf hname
    exact ⟨hform, Config.takesAlias_of_normalize hform⟩
  · intro signature name arguments type hsplit hread
    exact (isArguments_of_split? hsplit).exists_tuple hread
  · exact fun signature refused => normalize_eq_notSignature

/-- A signature with short spellings, one of a struct whose component has a name, the signature of
the only function of a contract, an argument list with an array in front, and one that is open. -/
theorem normalize_projection_pay :
    (normalize "f(uint256[2],(bytes1))" = .ok "f(uint256[2],(bytes1))" ∧
      ∃ name arguments parts, split? " f( uint[ 2 ], (byte) ) " = some (name, arguments) ∧
        AbiType.parseText (Text.withoutBlanks arguments) .null none = .ok (.tuple parts) ∧
        IsName name ∧
        (∀ type ∈ AbiType.typesOf parts,
          ∃ text components path, AbiType.parse text components path = .ok type) ∧
        "f(uint256[2],(bytes1))" = canonical name (AbiType.typesOf parts)) ∧
    normalize (canonical "$f" [.tuple [("a", .elementary .string)]]) = .ok "$f((string))" ∧
    Config.TakesAlias "pay(uint256)" ∧
    (∃ parts, AbiType.parseText "((uint8)[2],bool)" .null none = .ok (.tuple parts)) ∧
    normalize "f(uint8" = .error (.config (.notSignature "f(uint8")) := by
  obtain ⟨hagain, hcanonical, hfunction, htuple, hrefused⟩ := normalize_projection
  refine ⟨hagain " f( uint[ 2 ], (byte) ) " _ rfl, ?_, ?_, ?_, ?_⟩
  · apply hcanonical "$f" [.tuple [("a", .elementary .string)]] ⟨rfl, by decide⟩
    intro type htype
    rw [List.mem_singleton.mp htype]
    exact ⟨.str "tuple", .arr [.obj [("name", .str "a"), ("type", .str "string")]], none, rfl⟩
  · exact (hfunction (.obj [("contractName", .str "Vault"), ("abi", .arr [.obj
      [("name", .str "pay"), ("inputs", .arr [.obj [("type", .str " uint ")]])]])])
      none _ [] _ rfl rfl _ List.mem_cons_self ⟨rfl, by decide⟩).2
  · obtain ⟨parts, hparts⟩ := htuple "f((uint8)[2],bool)" "f" "((uint8)[2],bool)" _ rfl rfl
    exact ⟨parts, congrArg Except.ok hparts⟩
  · exact (hrefused _ _).mpr ⟨by decide, rfl⟩

end Signature

end AbiBindings
