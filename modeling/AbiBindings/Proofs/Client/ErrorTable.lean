import AbiBindings.Proofs.Client.Image
import AbiBindings.Proofs.Client.Outline
import AbiBindings.Proofs.Contract.Duplicates
import AbiBindings.Proofs.Json.Distinct

/-!
The table that finds an error by its selector. Naming keeps the signatures and the identifiers of
errors apart, and the source lists one item for each of them. A table has one entry for each key,
though, and a selector is only the first four bytes of a hash, so nothing is lost exactly if no two
errors share theirs.
-/

namespace AbiBindings

open Outcome

namespace Json

variable {α : Type} {items : List (Text × α)}

theorem putAll_nil_of_nodup (h : (items.map Prod.fst).Nodup) : putAll [] items = items :=
  putAll_of_nodup h

/-- A table has an entry for every item exactly if no key comes twice. -/
theorem length_putAll_eq_iff :
    (putAll [] items).length = items.length ↔ (items.map Prod.fst).Nodup := by
  constructor
  · intro hlength
    have hkeys : ((putAll [] items).map Prod.fst).Nodup := nodup_putAll List.nodup_nil
    have hsubset : (putAll [] items).map Prod.fst ⊆ items.map Prod.fst := by
      intro key hkey
      exact (mem_keys_putAll.mp hkey).resolve_left List.not_mem_nil
    have hle : (items.map Prod.fst).length ≤ ((putAll [] items).map Prod.fst).length := by
      rw [List.length_map, List.length_map, hlength]
    exact ((hkeys.subperm hsubset).perm_of_length_le hle).nodup_iff.mp hkeys
  · intro hkeys
    rw [putAll_nil_of_nodup hkeys]

/-- Where no value comes twice, every key finds its own exactly if no key comes twice. -/
theorem lookup_putAll_eq_iff (hvalues : (items.map Prod.snd).Nodup) :
    (∀ item ∈ items, lookup (putAll [] items) item.1 = some item.2) ↔
      (items.map Prod.fst).Nodup := by
  constructor
  · intro hfound
    apply hvalues.of_map.map_on
    intro item hitem other hother heq
    have hvalue : some item.2 = some other.2 := by
      rw [← hfound item hitem, heq, hfound other hother]
    exact List.inj_on_of_nodup_map hvalues hitem hother (Option.some.inj hvalue)
  · intro hkeys item hitem
    rw [putAll_nil_of_nodup hkeys]
    exact (lookup_eq_some hkeys).mpr hitem

end Json

/-- A signature has one hash. -/
theorem Client.IsHash.unique {count : Nat} {signature written written' : Text}
    (h : IsHash count signature written) (h' : IsHash count signature written') :
    written = written' := by
  obtain ⟨bytes, hbytes, rfl⟩ := h
  obtain ⟨bytes', hbytes', rfl⟩ := h'
  rw [hbytes, Except.ok.injEq] at hbytes'
  rw [hbytes']

namespace Contract

/-- Entries that pass the check for duplicates have signatures of their own. -/
theorem nodup_signatures {entries : List Signed} (h : checkDuplicates entries = .ok ()) :
    (entries.map Signed.signature).Nodup := by
  rw [checkDuplicates_eq] at h
  cases hfind : entries.find? fun s => 1 < (twins entries s).length with
  | some s =>
    rw [hfind] at h
    cases h
  | none =>
    rw [List.nodup_iff_count_le_one]
    intro signature
    by_cases hmem : signature ∈ entries.map Signed.signature
    · obtain ⟨s, hs, rfl⟩ := List.mem_map.mp hmem
      have htwins := List.find?_eq_none.mp hfind s hs
      rw [decide_eq_true_eq, twins, ← List.countP_eq_length_filter, not_lt] at htwins
      rw [List.count_eq_countP, List.countP_map]
      simpa only [Function.comp_def, beq_eq_decide] using htwins
    · rw [List.count_eq_zero_of_not_mem hmem]
      exact Nat.zero_le 1

end Contract

namespace Client

open Script (LineSays)

theorem named_errorRecordOf {n : NamedError} {e : ErrorRecord} (h : errorRecordOf n = .ok e) :
    e.signature = n.signature ∧ e.identifier = n.identifier := by
  obtain ⟨fields, -, hdone⟩ := bind_eq_ok.mp h
  cases hdone
  exact ⟨rfl, rfl⟩

section

variable {artifact : Artifact} {aliases : List (Text × Text)} {contract : Contract}
variable (hcontract : Contract.ofArtifact artifact aliases = .ok contract)
variable {package : Text} {name : Option Text} {client : Client}
variable (h : ofContract contract package name = .ok client)
include hcontract h

theorem nodup_errorSignatures : (client.errors.map ErrorRecord.signature).Nodup := by
  have hrecords : client.errors.map ErrorRecord.signature =
      contract.errors.map NamedError.signature := by
    refine map_eq_of_forall₂ ?_ (mapM_eq_ok.mp (assembles_ofContract h).errors)
    exact fun n e he => (named_errorRecordOf he).1
  have hnamed : contract.errors.map NamedError.signature =
      (Contract.signedErrors artifact).map Contract.Signed.signature := by
    rw [Contract.signedErrors, ← (Contract.errors_ofArtifact hcontract).1, List.map_map,
      List.map_map]
    apply List.map_congr_left
    intro n hn
    obtain ⟨identifier, hnamed⟩ := Contract.exists_nameError hcontract n hn
    obtain ⟨selector, -, heq⟩ := Contract.nameError_eq_ok.mp hnamed
    exact (congrArg NamedError.signature heq).symm
  rw [hrecords, hnamed]
  obtain ⟨⟨⟩, -, hchecked⟩ := bind_eq_ok.mp (Contract.ofArtifact_eq_ok.mp hcontract).1
  obtain ⟨⟨⟩, -, herrors⟩ := bind_eq_ok.mp hchecked
  exact Contract.nodup_signatures herrors

theorem nodup_errorIdentifiers : (client.errors.map ErrorRecord.identifier).Nodup := by
  have hrecords : client.errors.map ErrorRecord.identifier =
      contract.errors.map NamedError.identifier := by
    refine map_eq_of_forall₂ ?_ (mapM_eq_ok.mp (assembles_ofContract h).errors)
    exact fun n e he => (named_errorRecordOf he).2
  rw [hrecords, (Contract.errors_ofArtifact hcontract).2, Contract.identifiersOfErrors]
  exact Identifier.nodup_assign _ _ _ _

theorem isHash_errorSelector : ∀ e ∈ client.errors, IsHash 4 e.signature e.selector := by
  intro e he
  obtain ⟨n, hn, hmade⟩ := exists_of_forall₂ (mapM_eq_ok.mp (assembles_ofContract h).errors) he
  obtain ⟨identifier, hnamed⟩ := Contract.exists_nameError hcontract n hn
  exact (ErrorRecord.depicts_errorRecordOf hnamed hmade).selector

end

/-- Where the source finds the record of an error. -/
def ErrorRecord.path (e : ErrorRecord) : Text := "Errors." ++ e.identifier

/-- The items of the table: a selector and a record for each error. -/
def errorItems (client : Client) : List (Text × Text) :=
  client.errors.map fun e => (e.selector, e.path)

/-- The table that the items make; of items with one key, the last counts. -/
def errorTable (client : Client) : List (Text × Text) := Json.putAll [] client.errorItems

/-- The statement that sets up the table. -/
def errorStatement (client : Client) : Script.Statement :=
  .assigned "ERRORS" (.map (client.errorItems.map fun item => (item.1, .name item.2)))

theorem keys_errorItems (client : Client) :
    client.errorItems.map Prod.fst = client.errors.map ErrorRecord.selector := by
  rw [errorItems, List.map_map]
  rfl

theorem nodup_paths {client : Client} (h : (client.errors.map ErrorRecord.identifier).Nodup) :
    (client.errorItems.map Prod.snd).Nodup := by
  have hpaths : client.errorItems.map Prod.snd =
      (client.errors.map ErrorRecord.identifier).map fun identifier : Text =>
        "Errors." ++ identifier := by
    rw [errorItems, List.map_map, List.map_map]
    rfl
  rw [hpaths]
  exact h.map fun _ _ heq => List.append_cancel_left heq

/-- A line of the source sets up the table. -/
theorem exists_errorLine {client : Client} (h : client.Scoped) {text : Text}
    (hsource : client.source = .ok text) :
    ∃ before line after, text = before ++ "\n" ++ line ++ "\n" ++ after ∧
      LineSays line (some client.errorStatement) := by
  have hline := lineSays_errorTable fun e he => (h.errors e he).1
  obtain ⟨fingerprint, -, hparts⟩ := bind_eq_ok.mp hsource
  obtain rfl := Except.ok.inj hparts
  rw [errorStatement, errorItems, List.map_map]
  refine ⟨Source.heading client fingerprint ++ Source.eventClass client ++
      Source.recordClass "Errors" "Custom error records, keyed by selector in ERRORS."
        (client.errors.map Source.errorRecord) ++ "\n", _,
    Source.contractClass client fingerprint ++
      ((Source.members client).flatMap Source.Member.text ++ Source.exports client), ?_, hline⟩
  simp only [Source.errorClass, lines, List.flatMap_cons, List.flatMap_nil, List.append_assoc,
    List.append_nil]
  rfl

section

variable {artifact : Artifact} {aliases : List (Text × Text)} {contract : Contract}
variable (hcontract : Contract.ofArtifact artifact aliases = .ok contract)
variable {package : Text} {name : Option Text} {client : Client}
variable (h : ofContract contract package name = .ok client)
include hcontract h

/-- Errors have signatures and identifiers of their own, and the source lists an item for each. The
table has an entry for each error, and each selector finds the record of its own error, exactly if
the selectors differ, which are the first four bytes of the hashes. -/
theorem errorTable_of_selectors :
    (client.errors.map ErrorRecord.signature).Nodup ∧
      (client.errors.map ErrorRecord.identifier).Nodup ∧
      (∀ e ∈ client.errors, IsHash 4 e.signature e.selector) ∧
      (∀ text, client.source = .ok text →
        ∃ before line after, text = before ++ "\n" ++ line ++ "\n" ++ after ∧
          LineSays line (some client.errorStatement)) ∧
      (client.errorTable.length = client.errors.length ↔
        (client.errors.map ErrorRecord.selector).Nodup) ∧
      ((∀ e ∈ client.errors, Json.lookup client.errorTable e.selector = some e.path) ↔
        (client.errors.map ErrorRecord.selector).Nodup) := by
  have hidentifiers := nodup_errorIdentifiers hcontract h
  refine ⟨nodup_errorSignatures hcontract h, hidentifiers, isHash_errorSelector hcontract h,
    fun _ => exists_errorLine (scoped_ofContract hcontract h), ?size, ?own⟩
  case size =>
    rw [← keys_errorItems, ← Json.length_putAll_eq_iff, errorTable, errorItems, List.length_map]
  case own =>
    rw [← keys_errorItems, ← Json.lookup_putAll_eq_iff (nodup_paths hidentifiers), errorTable]
    simp only [errorItems, List.forall_mem_map]

end

/-- A contract with the error `transfer(address,uint256)` and other entries after it. -/
def transferring (others : List Json) : Json :=
  let error : Json := .obj [("type", .str "error"), ("name", .str "transfer"),
    ("inputs", .arr [.obj [("type", .str "address")], .obj [("type", .str "uint256")]])]
  .obj [("contractName", .str "Token"), ("abi", .arr (error :: others))]

/-- With that error alone, the table has one entry. -/
theorem errorTable_of_selectors_transfer :
    ∃ artifact contract client, Artifact.load (transferring []) none = .ok artifact ∧
      Contract.ofArtifact artifact [] = .ok contract ∧
      ofContract contract defaultPackage none = .ok client ∧
      client.errors.map ErrorRecord.signature = [("transfer(address,uint256)" : Text)] ∧
      client.errorTable.length = 1 ∧
      ∀ e ∈ client.errors, Json.lookup client.errorTable e.selector = some e.path := by
  obtain ⟨artifact, contract, client, hload, hcontract, h, hsignatures⟩ :
      ∃ artifact contract client, Artifact.load (transferring []) none = .ok artifact ∧
        Contract.ofArtifact artifact [] = .ok contract ∧
        ofContract contract defaultPackage none = .ok client ∧
        client.errors.map ErrorRecord.signature = [("transfer(address,uint256)" : Text)] :=
    ⟨_, _, _, rfl, rfl, rfl, rfl⟩
  obtain ⟨-, -, -, -, hsize, hown⟩ := errorTable_of_selectors hcontract h
  have hlength : client.errors.length = 1 := by
    rw [← List.length_map ErrorRecord.signature, hsignatures]
    rfl
  obtain ⟨e, he⟩ := List.length_eq_one_iff.mp hlength
  have hselectors : (client.errors.map ErrorRecord.selector).Nodup := by
    rw [he]
    exact List.nodup_singleton _
  exact ⟨artifact, contract, client, hload, hcontract, h, hsignatures,
    (hsize.mpr hselectors).trans hlength, hown.mpr hselectors⟩

theorem selector_transfer : Signature.selector "transfer(address,uint256)" = .ok "0xa9059cbb" :=
  toOption_eq_some.mp (by decide +kernel)

theorem selector_many_msg_babbage :
    Signature.selector "many_msg_babbage(bytes1)" = .ok "0xa9059cbb" :=
  toOption_eq_some.mp (by decide +kernel)

/-- Two errors that only share their selector are both named, and the table keeps one of them. -/
theorem exists_shared_selector :
    let other : Json := .obj [("type", .str "error"), ("name", .str "many_msg_babbage"),
      ("inputs", .arr [.obj [("type", .str "bytes1")]])]
    ∃ artifact contract client, Artifact.load (transferring [other]) none = .ok artifact ∧
      Contract.ofArtifact artifact [] = .ok contract ∧
      ofContract contract defaultPackage none = .ok client ∧
      client.errors.map ErrorRecord.selector = [("0xa9059cbb" : Text), "0xa9059cbb"] ∧
      client.errors.length = 2 ∧ client.errorTable.length = 1 := by
  intro other
  obtain ⟨artifact, contract, client, hload, hcontract, h, hsignatures⟩ :
      ∃ artifact contract client, Artifact.load (transferring [other]) none = .ok artifact ∧
        Contract.ofArtifact artifact [] = .ok contract ∧
        ofContract contract defaultPackage none = .ok client ∧
        client.errors.map ErrorRecord.signature =
          [("transfer(address,uint256)" : Text), "many_msg_babbage(bytes1)"] :=
    ⟨_, _, _, rfl, rfl, rfl, rfl⟩
  have hlength : client.errors.length = 2 := by
    rw [← List.length_map ErrorRecord.signature, hsignatures]
    rfl
  obtain ⟨e, e', he⟩ := List.length_eq_two.mp hlength
  have hhash := isHash_errorSelector hcontract h
  rw [he, List.map_cons, List.map_cons, List.map_nil, List.cons.injEq, List.cons.injEq]
    at hsignatures
  obtain ⟨hfirst, hsecond, -⟩ := hsignatures
  have hselector : e.selector = "0xa9059cbb" := by
    have hwritten := hhash e (by rw [he]; exact List.mem_cons_self)
    rw [hfirst] at hwritten
    exact hwritten.unique (isHash_selector selector_transfer)
  have hselector' : e'.selector = "0xa9059cbb" := by
    have hwritten := hhash e' (by rw [he]; exact List.mem_cons_of_mem _ List.mem_cons_self)
    rw [hsecond] at hwritten
    exact hwritten.unique (isHash_selector selector_many_msg_babbage)
  refine ⟨artifact, contract, client, hload, hcontract, h, ?_, hlength, ?_⟩
  · rw [he, List.map_cons, List.map_cons, List.map_nil, hselector, hselector']
  · rw [errorTable, errorItems, he, List.map_cons, List.map_cons, List.map_nil, hselector,
      hselector']
    rfl

end Client

end AbiBindings
