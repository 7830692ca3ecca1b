import AbiBindings.Proofs.Config.History

/-!
Every change of a configuration ends with a check of the whole, on the configuration itself and
through a job. So a configuration that a history of changes reaches passes the check.
-/

namespace AbiBindings

open Outcome

namespace Config

theorem validated_of_withAlias {config config' : Config} {signature word : Text}
    (h : config.withAlias signature word = .ok config') : config'.validated = .ok config' := by
  obtain ⟨form, -, hvalidated⟩ := bind_eq_ok.mp h
  exact validated_of_validated hvalidated

theorem validated_of_withAliases {config config' : Config} (hconfig : config.validated = .ok config)
    {pairs : List (Text × Text)} (h : config.withAliases pairs = .ok config') :
    config'.validated = .ok config' := by
  induction pairs generalizing config with
  | nil =>
    cases h
    exact hconfig
  | cons pair rest ih =>
    rw [withAliases, List.foldlM_cons] at h
    obtain ⟨first, hfirst, hrest⟩ := bind_eq_ok.mp h
    exact ih (validated_of_withAlias hfirst) hrest

end Config

namespace Job

/-- The configuration of a job is acceptable. -/
theorem validated_ofConfig {path : Text} {config : Config} {job : Job}
    (h : ofConfig path config = .ok job) :
    job.artifactPath = path ∧ job.config.validated = .ok job.config := by
  obtain ⟨validated, hvalidated, hjob⟩ := bind_eq_ok.mp h
  cases hjob
  exact ⟨rfl, Config.validated_of_validated hvalidated⟩

theorem validated_withAlias {job job' : Job} {signature word : Text}
    (h : job.withAlias signature word = .ok job') : job'.config.validated = .ok job'.config := by
  obtain ⟨config, -, hjob⟩ := bind_eq_ok.mp h
  exact (validated_ofConfig hjob).2

theorem validated_withAliases {job job' : Job} (hjob : job.config.validated = .ok job.config)
    {pairs : List (Text × Text)} (h : job.withAliases pairs = .ok job') :
    job'.config.validated = .ok job'.config := by
  induction pairs generalizing job with
  | nil =>
    cases h
    exact hjob
  | cons pair rest ih =>
    rw [withAliases, List.foldlM_cons] at h
    obtain ⟨first, hfirst, hrest⟩ := bind_eq_ok.mp h
    exact ih (validated_withAlias hfirst) hrest

theorem Change.validated {change : Change} {job job' : Job}
    (hjob : job.config.validated = .ok job.config) (h : change.apply job = .ok job') :
    job'.config.validated = .ok job'.config := by
  cases change with
  | package word =>
    obtain ⟨config, -, hdone⟩ := bind_eq_ok.mp h
    exact (validated_ofConfig hdone).2
  | name word =>
    obtain ⟨config, -, hdone⟩ := bind_eq_ok.mp h
    exact (validated_ofConfig hdone).2
  | assign signature word => exact validated_withAlias h
  | assignAll pairs => exact validated_withAliases hjob h

end Job

namespace Config

theorem Change.validated {change : Change} {config config' : Config}
    (h : change.apply config = .ok config') : config'.validated = .ok config' := by
  cases change with
  | assign signature word => exact validated_of_withAlias h
  | override overrides =>
    obtain ⟨replaced, hreplaced, haliases⟩ := bind_eq_ok.mp h
    exact validated_of_withAliases (validated_of_validated hreplaced) haliases
  | intoJob path =>
    obtain ⟨job, hjob, hdone⟩ := bind_eq_ok.mp h
    cases hdone
    exact (Job.validated_ofConfig hjob).2
  | job path change =>
    obtain ⟨job, hjob, h⟩ := bind_eq_ok.mp h
    obtain ⟨job', hchange, hdone⟩ := bind_eq_ok.mp h
    cases hdone
    exact Job.Change.validated (Job.validated_ofConfig hjob).2 hchange

/-- Whatever its history, a configuration passes the check. -/
theorem Reaches.validated {log : List (Text × Text)} {config : Config} (h : Reaches log config) :
    config.validated = .ok config := by
  induction h with
  | standard => rfl
  | environment hconfig => exact validated_of_validated hconfig
  | changed _ hchange _ => exact Change.validated hchange
  | refused _ _ ih => exact ih

end Config

end AbiBindings
