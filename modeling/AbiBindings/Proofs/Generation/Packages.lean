import AbiBindings.Proofs.Client.Imports
import AbiBindings.Proofs.Client.Readback

/-!
Names of a configuration in a generated module. The package is written into the source as it is, so
the line that imports from it is an import exactly if no line end follows the package and no part of
it is a keyword. The check of the configuration asks for neither.
-/

namespace AbiBindings

open Config (Importable IsPath)
open Identifier (Legal Usable)
open Outcome
open Script (IsImport codes)
open Text (IsEnded Plain)

namespace Client

/-- What is imported from the package are words that are no keywords. -/
theorem usable_imports (client : Client) : ∀ name ∈ client.imports, Usable [] name := by
  have hwords : ∀ word ∈ runtimeWords,
      Config.isIdentifier word = true ∧ word ∉ Identifier.keywords := by decide +kernel
  intro name hname
  obtain ⟨hidentifier, hkeyword⟩ := hwords name (mem_runtimeWords client name hname)
  exact ⟨Config.isIdentifier_eq_true.mp hidentifier, hkeyword, List.not_mem_nil⟩

theorem imports_ne_nil (client : Client) : client.imports ≠ [] := by
  have hcontract : ("Contract" : Text) ∈ client.imports := mem_imports.mpr (.inl rfl)
  exact List.ne_nil_of_mem hcontract

/-- The line that imports from the package, which may hold a line end. -/
def importText (client : Client) : Text :=
  "from " ++ client.runtimePackage ++ " import " ++ Text.join ", " client.imports

theorem exists_behind_preamble {client : Client} {text : Text} (h : client.source = .ok text) :
    ∃ fingerprint rest, client.fingerprint = .ok fingerprint ∧
      text = lines (preamble client fingerprint) ++ (client.importText ++ "\n" ++ rest) := by
  obtain ⟨fingerprint, hfingerprint, hparts⟩ := bind_eq_ok.mp h
  obtain rfl := Except.ok.inj hparts
  obtain ⟨settings, hheading⟩ : ∃ settings, Source.heading client fingerprint =
      lines (preamble client fingerprint ++ client.importText :: settings) := ⟨_, rfl⟩
  rw [hheading]
  refine ⟨fingerprint, lines settings ++ (Source.eventClass client ++ (Source.errorClass client ++
    (Source.contractClass client fingerprint ++
      ((Source.members client).flatMap Source.Member.text ++ Source.exports client)))),
    hfingerprint, ?_⟩
  simp only [lines, List.flatMap_append, List.flatMap_cons, List.append_assoc]

theorem Legible.exists_scan {client : Client} (h : client.Legible) {text : Text}
    (hsource : client.source = .ok text) : ∃ lines, Script.scan text = some lines := by
  obtain ⟨fingerprint, hfingerprint, hparts⟩ := bind_eq_ok.mp hsource
  obtain rfl := Except.ok.inj hparts
  obtain ⟨lines, hscan, -⟩ := (h.says_source (le_val_fingerprint hfingerprint)).scan
  exact ⟨lines, hscan⟩

section

variable {client : Client} (h : client.Legible) {text : Text}
variable (hsource : client.source = .ok text) {lines : List Script.Line}
variable (hscan : Script.scan text = some lines)
include h hsource hscan

/-- What is written behind the preamble is read there. -/
theorem Legible.getElem?_behind {line behind : Text} (hplain : Plain line)
    (heq : client.importText ++ "\n" = line ++ "\n" ++ behind) :
    lines[8]? = some (codes line) := by
  obtain ⟨fingerprint, rest, hfingerprint, rfl⟩ := exists_behind_preamble hsource
  rw [heq, List.append_assoc] at hscan
  exact Script.getElem?_scan (h.lineSays_preamble (le_val_fingerprint hfingerprint))
    (Script.readsAs_plain hplain).endsAs hscan

/-- The line behind the preamble is an import from the package if the package can be imported from,
and no other import. -/
theorem Legible.exists_importLine {parts : List Text} {path : Text} (hpath : IsPath parts path)
    (hended : IsEnded path client.runtimePackage) :
    ∃ line, lines[8]? = some line ∧
      (Importable client.runtimePackage → IsImport line client.runtimePackage client.imports) ∧
      ∀ package names, IsImport line package names → package = client.runtimePackage := by
  have hplain : Plain path := (Script.quiet_of_isPathPart (Script.isPathPart_of_isPath hpath)).plain
  have hblank : CodePoint.ofChar ' ' ∉ path := hpath.not_mem (by decide) rfl
  rcases hended with heq | heq
  · have himport : Plain client.importText := by
      simp only [importText, heq, Text.plain_append]
      exact ⟨⟨⟨by decide, hplain⟩, by decide⟩, (quiet_imports client).plain⟩
    refine ⟨_, h.getElem?_behind hsource hscan himport (List.append_nil _).symm, ?_, ?_⟩
    · exact fun himportable => ⟨rfl, himportable, imports_ne_nil client, usable_imports client⟩
    · intro package names hline
      rw [importText, heq] at hline
      rw [heq]
      exact hline.package_eq hblank
  · have hcut : Plain ("from " ++ path) := by
      rw [Text.plain_append]
      exact ⟨by decide, hplain⟩
    have hbehind : client.importText ++ "\n" =
        "from " ++ path ++ "\n" ++ (" import " ++ Text.join ", " client.imports ++ "\n") := by
      simp only [importText, heq, List.append_assoc]
    refine ⟨_, h.getElem?_behind hsource hscan hcut hbehind, ?_, ?_⟩
    · rintro ⟨parts', hparts', -⟩
      have hend : CodePoint.ofChar '\n' ∈ client.runtimePackage := by
        rw [heq]
        exact List.mem_append_right _ (List.mem_singleton_self _)
      exact absurd hend (hparts'.not_mem (by decide) rfl)
    · exact fun package names hline => absurd hline (Script.not_isImport_of_cut hblank)

end

end Client

namespace Generation

theorem runtimePackage_of_client {document : Json} {config : Config} {client : Client}
    (h : Generation.client document config = .ok client) :
    client.runtimePackage = config.runtimePackage := by
  obtain ⟨artifact, -, h⟩ := bind_eq_ok.mp h
  obtain ⟨contract, -, h⟩ := bind_eq_ok.mp h
  exact (Client.assembles_ofContract h).package

/-- A configuration passes the check exactly if its package is a path of identifiers and its aliases
are different identifiers, each perhaps with a line end after it. Of those that pass, a package can
be imported from exactly if it has no line end and no part of it is a keyword, and an alias is an
identifier exactly if it has no line end. In the source the line behind the preamble is an import
from the package if the package can be imported from, and no import at all if not. -/
theorem names_of_validated (config : Config) :
    ((∃ config', config.validated = .ok config') ↔
      (∃ path, (∃ parts, IsPath parts path) ∧ IsEnded path config.runtimePackage) ∧
        (∀ pair ∈ config.methodAliases, ∃ word, Legal word ∧ IsEnded word pair.2) ∧
        (config.methodAliases.map Prod.snd).Nodup) ∧
    (config.validated = .ok config →
      (Importable config.runtimePackage ↔ CodePoint.ofChar '\n' ∉ config.runtimePackage ∧
        ∀ part ∈ Text.splitOn '.' config.runtimePackage, part ∉ Identifier.keywords) ∧
      (∀ pair ∈ config.methodAliases, (Legal pair.2 ↔ CodePoint.ofChar '\n' ∉ pair.2)) ∧
      ∀ document client text, Generation.client document config = .ok client →
        Format.source.render client = .ok text →
        ∃ lines line, Script.scan text = some lines ∧ lines[8]? = some line ∧
          (Importable config.runtimePackage →
            IsImport line config.runtimePackage client.imports) ∧
          (¬ Importable config.runtimePackage →
            ∀ package names, ¬ IsImport line package names)) := by
  refine ⟨Config.exists_validated, fun hconfig => ?_⟩
  obtain ⟨hpackage, haliases, -⟩ := Config.validated_eq_ok.mp hconfig
  refine ⟨Config.importable_iff hpackage,
    fun pair hpair => Config.legal_iff (haliases.words pair hpair), ?_⟩
  intro document client text h htext
  have hlegible := legible_of_client hconfig h
  obtain ⟨lines, hscan⟩ := hlegible.exists_scan htext
  obtain ⟨path, ⟨parts, hpath⟩, hended⟩ := Config.isPackage_eq_true.mp hpackage
  rw [← runtimePackage_of_client h] at hended ⊢
  obtain ⟨line, hline, himport, hother⟩ :=
    hlegible.exists_importLine htext hscan hpath hended
  refine ⟨lines, line, hscan, hline, himport, ?_⟩
  intro hnot package names hread
  rw [← hother package names hread] at hnot
  exact hnot hread.package

/-- Bindings that import from a package inside another, with a method that has an alias. -/
def chained : Config := ⟨none, "myapp.chain", none, [("approve(address)", "allow")]⟩

def approving : Json :=
  .obj [("contractName", .str "Token"), ("abi", .arr [
    .obj [("type", .str "function"), ("name", .str "approve"),
      ("inputs", .arr [.obj [("name", .str "v"), ("type", .str "address")]]),
      ("outputs", .arr []), ("stateMutability", .str "nonpayable")]])]

/-- A path of two words passes the check, and the source imports from it. -/
theorem names_of_validated_chained :
    chained.validated = .ok chained ∧ Importable "myapp.chain" ∧ Legal "allow" ∧
      ∃ client text lines line, Generation.client approving chained = .ok client ∧
        Format.source.render client = .ok text ∧ Script.scan text = some lines ∧
        lines[8]? = some line ∧ IsImport line "myapp.chain" ["Contract", "Transaction"] := by
  have hconfig : chained.validated = .ok chained := rfl
  obtain ⟨client, h, himports⟩ : ∃ client, Generation.client approving chained = .ok client ∧
      client.imports = ["Contract", "Transaction"] := ⟨_, rfl, rfl⟩
  have hnames : ∀ name ∈ Artifact.networkNames approving, Text.isEncodable name = true := by decide
  have hjson := (allEncodable_toJson hconfig h).mpr hnames
  obtain ⟨text, htext⟩ := Client.exists_source.mpr (Client.exists_fingerprint.mpr hjson)
  obtain ⟨-, hpassed⟩ := names_of_validated chained
  obtain ⟨hpackage, haliases, hsource⟩ := hpassed hconfig
  have himportable : Importable "myapp.chain" := hpackage.mpr (by decide)
  have hlegal : Legal "allow" :=
    (haliases ("approve(address)", "allow") (List.mem_singleton_self _)).mpr (by decide)
  obtain ⟨lines, line, hscan, hline, himport, -⟩ := hsource approving client text h htext
  have hread := himport himportable
  rw [himports] at hread
  exact ⟨hconfig, himportable, hlegal, client, text, lines, line, h, htext, hscan, hline, hread⟩

/-- A package and an alias pass with a line end after them, and a package that is a keyword passes.
None of these packages can be imported from, and the alias is no identifier. -/
theorem exists_validated_unusable :
    ∃ ended keyword aliased : Config,
      ended.validated = .ok ended ∧ ended.runtimePackage = "p\n" ∧ ¬ Importable "p\n" ∧
      keyword.validated = .ok keyword ∧ keyword.runtimePackage = "class" ∧
      ¬ Importable "class" ∧
      aliased.validated = .ok aliased ∧ aliased.methodAliases.map Prod.snd = [("a\n" : Text)] ∧
      ¬ Legal "a\n" := by
  refine ⟨{ Config.standard with runtimePackage := "p\n" },
    { Config.standard with runtimePackage := "class" },
    { Config.standard with methodAliases := [("f()", "a\n")] }, rfl, rfl, ?ended, rfl, rfl,
    ?keyword, rfl, rfl, ?aliased⟩
  case ended =>
    rw [Config.importable_iff (by decide)]
    decide
  case keyword =>
    rw [Config.importable_iff (by decide)]
    decide
  case aliased =>
    rw [Config.legal_iff (by decide)]
    decide

end Generation

end AbiBindings
