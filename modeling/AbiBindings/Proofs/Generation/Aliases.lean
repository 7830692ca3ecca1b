import AbiBindings.Proofs.Client.Naming
import AbiBindings.Proofs.Config.Names
import AbiBindings.Proofs.Identifier.Alias

/-!
Aliases in a generated module. A method with an alias is called by it, spelled as an identifier,
whatever the other functions of the contract are called. Only another alias that comes earlier can
get in its way: then a number follows, the first that makes it free.
-/

namespace AbiBindings

open Identifier (BecomeOne IsFirstFree Legal Named)
open Outcome

theorem Client.named_methodOf {f : NamedFunction} {m : Method} (h : methodOf f = .ok m) :
    m.name = f.entry.name ∧ m.signature = f.signature ∧ m.identifier = f.identifier := by
  simp only [methodOf, bind_eq_ok, pure_eq_ok, Except.ok.injEq] at h
  obtain ⟨inputs, -, outputs, -, rfl⟩ := h
  exact ⟨rfl, rfl, rfl⟩

/-- The identifiers of methods are assigned to what the methods are called in the contract. -/
theorem Client.assign_methods {artifact : Artifact} {aliases : List (Text × Text)}
    {contract : Contract} (hcontract : Contract.ofArtifact artifact aliases = .ok contract)
    {package : Text} {name : Option Text} {client : Client}
    (h : ofContract contract package name = .ok client) :
    client.methods.map Method.identifier =
      Identifier.assign true Identifier.reservedForMethods aliases
        (client.methods.map fun m => ⟨m.name, m.signature⟩) := by
  have hmethods := mapM_eq_ok.mp (assembles_ofContract h).methods
  obtain ⟨hentries, hidentifiers⟩ := Contract.functions_ofArtifact hcontract
  have hnamed : client.methods.map (fun m => (⟨m.name, m.signature⟩ : Named)) =
      contract.functions.map fun f => ⟨f.entry.name, f.signature⟩ := by
    refine map_eq_of_forall₂ (fun f m hm => ?_) hmethods
    obtain ⟨hname, hsignature, -⟩ := named_methodOf hm
    rw [hname, hsignature]
  have hsigned : contract.functions.map (fun f => (⟨f.entry.name, f.signature⟩ : Named)) =
      artifact.functions.map Contract.namedOfFunction := by
    rw [← hentries, List.map_map, List.map_inj_left]
    intro f hf
    obtain ⟨identifier, hf⟩ := Contract.exists_nameFunction hcontract f hf
    obtain ⟨selector, -, hmade⟩ := Contract.nameFunction_eq_ok.mp hf
    rw [Function.comp_apply, Contract.namedOfFunction, ← hmade]
  have hcalled : client.methods.map Method.identifier =
      contract.functions.map NamedFunction.identifier := by
    refine map_eq_of_forall₂ ?_ hmethods
    exact fun f m hm => (named_methodOf hm).2.2
  rw [hcalled, hidentifiers, hnamed, hsigned]
  rfl

/-- An alias that is accepted is an identifier, but for a line end. -/
theorem Config.legal_of_isAlias {word : Text} (h : isAlias word = true) :
    Legal (Text.dropLineEnd word) :=
  isIdentifier_eq_true.mp h

namespace Generation

/-- What a method is called by an alias if nothing is in its way. -/
def ownIdentifier (word : Text) : Text :=
  Identifier.sanitize false Identifier.reservedForMethods word

/-- The methods with an alias, in their order and each with it. -/
def aliasedMethods (config : Config) (made : Client) : List (Client.Method × Text) :=
  Identifier.aliased Client.Method.signature config.aliases made.methods

section

variable {document : Json} {config : Config} {made : Client}
  (h : client document config = .ok made)
include h

theorem assign_client :
    made.methods.map Client.Method.identifier =
      Identifier.assign true Identifier.reservedForMethods config.aliases
        (made.methods.map fun m => ⟨m.name, m.signature⟩) := by
  obtain ⟨artifact, -, h⟩ := bind_eq_ok.mp h
  obtain ⟨contract, hcontract, hmade⟩ := bind_eq_ok.mp h
  exact Client.assign_methods hcontract hmade

/-- Under a configuration that is accepted and has each signature once, a method with an alias is
called by the first numbered form of it that no method with an alias before has, whatever the other
functions are called. So all are called by their aliases, without a number, exactly if no two of
the aliases become the same identifier; and two become the same exactly if they differ in a line
end or in underscores in front, or if one is taken and the other is that with an underscore after
it. -/
theorem aliased_identifiers (hconfig : config.validated = .ok config)
    (hdistinct : (config.methodAliases.map Prod.fst).Nodup) :
    (∀ m word, (m, word) ∈ aliasedMethods config made ↔
      m ∈ made.methods ∧ (m.signature, word) ∈ config.methodAliases) ∧
    (∀ before m word after, aliasedMethods config made = before ++ (m, word) :: after →
      IsFirstFree (ownIdentifier word) (before.map fun p => p.1.identifier) m.identifier) ∧
    ((∀ p ∈ aliasedMethods config made, p.1.identifier = ownIdentifier p.2) ↔
      ((aliasedMethods config made).map fun p => ownIdentifier p.2).Nodup) ∧
    ∀ pair ∈ config.methodAliases, ∀ other ∈ config.methodAliases,
      (ownIdentifier pair.2 = ownIdentifier other.2 ↔
        BecomeOne Identifier.reservedForMethods (Text.dropLineEnd pair.2)
          (Text.dropLineEnd other.2)) := by
  refine ⟨?_, ?_, ?_, ?_⟩
  · intro m word
    rw [aliasedMethods, Identifier.mem_aliased, Config.aliases_of_nodup hdistinct,
      Json.lookup_eq_some hdistinct]
  · intro before m word after hsplit
    exact Identifier.isFirstFree_aliased (assign_client h) hsplit
  · exact Identifier.forall_aliased_iff (assign_client h)
  · intro pair hpair other hother
    obtain ⟨-, hacceptable, -⟩ := Config.validated_eq_ok.mp hconfig
    exact Identifier.sanitize_eq_sanitize_iff Identifier.endsInLetter_of_mem_reservedForMethods
      (Config.legal_of_isAlias (hacceptable.words pair hpair))
      (Config.legal_of_isAlias (hacceptable.words other hother))

end

def threeFunctions : Json :=
  .obj [("contractName", .str "X"), ("abi", .arr [
    .obj [("name", .str "go")], .obj [("name", .str "f")], .obj [("name", .str "g")]])]

def withPairs (pairs : List (Text × Text)) : Config :=
  { Config.standard with methodAliases := pairs }

/-- An alias that is a keyword gets an underscore, and one that another function is called like is
kept. -/
theorem aliased_identifiers_keyword :
    ∃ made, client threeFunctions (withPairs [("g()", "go"), ("f()", "class")]) = .ok made ∧
      ∀ p ∈ aliasedMethods (withPairs [("g()", "go"), ("f()", "class")]) made,
        p.1.identifier = ownIdentifier p.2 := by
  obtain ⟨made, hmade, hwords⟩ : ∃ made,
      client threeFunctions (withPairs [("g()", "go"), ("f()", "class")]) = .ok made ∧
        (aliasedMethods (withPairs [("g()", "go"), ("f()", "class")]) made).map
          (fun p => ownIdentifier p.2) = [("class_" : Text), "go"] :=
    ⟨_, rfl, rfl⟩
  obtain ⟨-, -, hkept, -⟩ := aliased_identifiers hmade rfl (by decide)
  refine ⟨made, hmade, hkept.mpr ?_⟩
  rw [hwords]
  decide

/-- Of two aliases that differ but become the same identifier, the second is numbered. -/
theorem exists_alias_numbered :
    ∃ made m, (withPairs [("f()", "class"), ("g()", "class_")]).validated =
        .ok (withPairs [("f()", "class"), ("g()", "class_")]) ∧
      client threeFunctions (withPairs [("f()", "class"), ("g()", "class_")]) = .ok made ∧
      m ∈ made.methods ∧ m.signature = "g()" ∧ ownIdentifier "class_" = "class_" ∧
      m.identifier = "class__1" :=
  ⟨_, _, rfl, rfl, List.mem_cons_of_mem _ (List.mem_cons_of_mem _ List.mem_cons_self), rfl, rfl,
    rfl⟩

end Generation

end AbiBindings
