import AbiBindings.Job
import AbiBindings.Proofs.Config.Aliases

/-!
Aliases over a history of changes. A configuration starts without any, and then changes come one
after the other, on the configuration itself or through a job; a change that is refused leaves the
configuration as it was. However long the history, the signatures that have an alias are canonical
and no two are the same, no two aliases are the same, and the alias of a signature is the one that
was given last to any spelling of it.

All changes come down to pairs that are assigned one after the other, and so does what they keep.
-/

namespace AbiBindings

open Outcome

inductive Job.Change where
  | package (word : Text)
  | name (word : Text)
  | assign (signature word : Text)
  | assignAll (pairs : List (Text × Text))

def Job.Change.apply (job : Job) : Job.Change → Except Fault Job
  | package word => job.withRuntimePackage word
  | name word => job.withContractName word
  | assign signature word => job.withAlias signature word
  | assignAll pairs => job.withAliases pairs

def Job.Change.assignments : Job.Change → List (Text × Text)
  | package _ | name _ => []
  | assign signature word => [(signature, word)]
  | assignAll pairs => pairs

namespace Config

/-- A change of a configuration. One that is made through a job is for some artifact file. -/
inductive Change where
  | assign (signature word : Text)
  | override (overrides : Overrides)
  | intoJob (path : Text)
  | job (path : Text) (change : Job.Change)

namespace Change

def apply (config : Config) : Change → Except Fault Config
  | assign signature word => config.withAlias signature word
  | override overrides => config.withOverrides overrides
  | intoJob path => do
    let job ← Job.ofConfig path config
    return job.config
  | job path change => do
    let job ← Job.ofConfig path config
    let job ← change.apply job
    return job.config

/-- The signatures that a change names, as they are spelled there, with their aliases. -/
def assignments : Change → List (Text × Text)
  | assign signature word => [(signature, word)]
  | override overrides => overrides.methodAliases.getD []
  | intoJob _ => []
  | job _ change => change.assignments

end Change

/-- A configuration after a history, with the log of what the changes assigned. -/
inductive Reaches : (log : List (Text × Text)) → Config → Prop
  | standard : Reaches [] Config.standard
  | environment {environment : Environment} {start : Text} {config : Config} :
      ofEnvironment environment start = .ok config → Reaches [] config
  | changed {log : List (Text × Text)} {config config' : Config} {change : Change} :
      Reaches log config → change.apply config = .ok config' →
      Reaches (log ++ change.assignments) config'
  | refused {log : List (Text × Text)} {config : Config} {change : Change} {fault : Fault} :
      Reaches log config → change.apply config = .error fault → Reaches log config

theorem assigned_withAlias {config config' : Config} {signature word : Text}
    (h : config.withAlias signature word = .ok config') :
    Assigned config.methodAliases [(signature, word)] config'.methodAliases := by
  obtain ⟨form, hform, hvalidated⟩ := bind_eq_ok.mp h
  rw [eq_of_validated hvalidated]
  exact .more hform (nodup_of_validated hvalidated) .none

theorem assigned_withAliases {config config' : Config} {pairs : List (Text × Text)}
    (h : config.withAliases pairs = .ok config') :
    Assigned config.methodAliases pairs config'.methodAliases :=
  assigned_of_foldlM methodAliases assigned_withAlias h

/-- Without aliases of their own, overrides assign those that are there once more. -/
theorem assigned_withOverrides {config config' : Config} {overrides : Overrides}
    (h : config.withOverrides overrides = .ok config') :
    Assigned config.methodAliases (overrides.methodAliases.getD config.aliases)
      config'.methodAliases := by
  obtain ⟨replaced, hreplaced, haliases⟩ := bind_eq_ok.mp h
  have hassigned := assigned_withAliases haliases
  rw [eq_of_validated hreplaced] at hassigned
  exact hassigned

end Config

namespace Job

open Config (Assigned)

/-- Into a job, only the path of a configuration changes. -/
theorem methodAliases_ofConfig {path : Text} {config : Config} {job : Job}
    (h : ofConfig path config = .ok job) :
    job.config.methodAliases = config.methodAliases := by
  obtain ⟨validated, hvalidated, hjob⟩ := bind_eq_ok.mp h
  cases hjob
  rw [Config.eq_of_validated hvalidated]

theorem assigned_withAlias {job job' : Job} {signature word : Text}
    (h : job.withAlias signature word = .ok job') :
    Assigned job.config.methodAliases [(signature, word)] job'.config.methodAliases := by
  obtain ⟨config, hconfig, hjob⟩ := bind_eq_ok.mp h
  rw [methodAliases_ofConfig hjob]
  exact Config.assigned_withAlias hconfig

theorem assigned_withAliases {job job' : Job} {pairs : List (Text × Text)}
    (h : job.withAliases pairs = .ok job') :
    Assigned job.config.methodAliases pairs job'.config.methodAliases :=
  Config.assigned_of_foldlM (fun job => job.config.methodAliases) assigned_withAlias h

theorem Change.assigned {change : Change} {job job' : Job} (h : change.apply job = .ok job') :
    Assigned job.config.methodAliases change.assignments job'.config.methodAliases := by
  cases change with
  | package word =>
    obtain ⟨config, hconfig, hjob⟩ := bind_eq_ok.mp h
    rw [methodAliases_ofConfig hjob, Config.eq_of_validated hconfig]
    exact .none
  | name word =>
    obtain ⟨config, hconfig, hjob⟩ := bind_eq_ok.mp h
    rw [methodAliases_ofConfig hjob, Config.eq_of_validated hconfig]
    exact .none
  | assign signature word => exact assigned_withAlias h
  | assignAll pairs => exact assigned_withAliases h

end Job

namespace Config

/-- A change assigns what it names, or else the pairs that are there once more. -/
theorem Change.assigned {change : Change} {config config' : Config}
    (h : change.apply config = .ok config') :
    Assigned config.methodAliases change.assignments config'.methodAliases ∨
      change.assignments = [] ∧
        Assigned config.methodAliases config.aliases config'.methodAliases := by
  cases change with
  | assign signature word => exact .inl (assigned_withAlias h)
  | override overrides =>
    have hassigned := assigned_withOverrides h
    rw [assignments]
    cases hpairs : overrides.methodAliases with
    | none =>
      rw [hpairs] at hassigned
      exact .inr ⟨rfl, hassigned⟩
    | some pairs =>
      rw [hpairs] at hassigned
      exact .inl hassigned
  | intoJob path =>
    obtain ⟨job, hjob, hdone⟩ := bind_eq_ok.mp h
    cases hdone
    rw [Job.methodAliases_ofConfig hjob]
    exact .inl .none
  | job path change =>
    obtain ⟨job, hjob, h⟩ := bind_eq_ok.mp h
    obtain ⟨job', hchange, hdone⟩ := bind_eq_ok.mp h
    cases hdone
    rw [← Job.methodAliases_ofConfig hjob]
    exact .inl (Job.Change.assigned hchange)

/-- A change keeps pairs settled and gives each signature that it names the alias named last. -/
theorem Change.settled {change : Change} {config config' : Config}
    (h : change.apply config = .ok config') (hconfig : Settled config.methodAliases) :
    Settled config'.methodAliases ∧ ∀ form,
      Json.lookup config'.methodAliases form =
        (latest? change.assignments form).or (Json.lookup config.methodAliases form) := by
  rcases Change.assigned h with hassigned | ⟨hnone, hassigned⟩
  · exact ⟨hassigned.settled hconfig, hassigned.lookup⟩
  · rw [aliases_of_nodup hconfig.signatures] at hassigned
    refine ⟨hassigned.settled hconfig, fun form => ?_⟩
    rw [hnone, hassigned.lookup_again hconfig form]
    rfl

theorem Reaches.settled {log : List (Text × Text)} {config : Config} (h : Reaches log config) :
    Settled config.methodAliases ∧
      ∀ form, Json.lookup config.methodAliases form = latest? log form := by
  induction h with
  | standard => exact ⟨.nil, fun _ => rfl⟩
  | environment hconfig =>
    rw [eq_of_validated hconfig]
    exact ⟨.nil, fun _ => rfl⟩
  | changed _ hchange ih =>
    obtain ⟨hsettled, hlookup⟩ := ih
    obtain ⟨hsettled', hlookup'⟩ := Change.settled hchange hsettled
    refine ⟨hsettled', fun form => ?_⟩
    rw [hlookup', hlookup, latest?_append]
  | refused _ _ ih => exact ih

/-- Whatever the history of a configuration, the signatures that have an alias are there once and
are their own canonical forms, and no alias is there twice. A signature in any spelling has the
alias that was given last to a spelling of it, and none if it never was given one; and no change
that is made changes the alias of a signature that it does not name. -/
theorem Reaches.aliases_latest {log : List (Text × Text)} {config : Config}
    (h : Reaches log config) :
    Settled config.methodAliases ∧
    (∀ signature form, Signature.normalize signature = .ok form →
      Json.lookup config.aliases form = latest? log form) ∧
    ∀ (change : Change) (config' : Config), change.apply config = .ok config' →
      ∀ form, (∀ pair ∈ change.assignments, Signature.normalize pair.1 ≠ .ok form) →
        Json.lookup config'.aliases form = Json.lookup config.aliases form := by
  obtain ⟨hsettled, hlookup⟩ := h.settled
  refine ⟨hsettled, ?_, ?_⟩
  · intro signature form _
    rw [aliases_of_nodup hsettled.signatures, hlookup]
  · intro change config' hchange form hother
    obtain ⟨hsettled', hlookup'⟩ := Change.settled hchange hsettled
    rw [aliases_of_nodup hsettled'.signatures, aliases_of_nodup hsettled.signatures, hlookup',
      latest?_eq_none hother, Option.none_or]

/-- A signature that gets an alias, gets another one in another spelling while a second signature
takes the first alias over, and keeps it when a job takes another package. -/
theorem Reaches.aliases_latest_respelled :
    ∃ config, Reaches [("f(uint)", "g"), ("f( uint256 )", "h"), ("k()", "g")] config ∧
      Json.lookup config.aliases "f(uint256)" = some "h" ∧
      Json.lookup config.aliases "k()" = some "g" := by
  have hform : Signature.normalize "f( uint256 )" = .ok "f(uint256)" := rfl
  have hother : Signature.normalize "k()" = .ok "k()" := rfl
  have hfirst : Change.apply Config.standard (.assign "f(uint)" "g") =
      .ok { Config.standard with methodAliases := [("f(uint256)", "g")] } := rfl
  have hsecond : Change.apply { Config.standard with methodAliases := [("f(uint256)", "g")] }
      (.override { Overrides.none with
        methodAliases := some [("f( uint256 )", "h"), ("k()", "g")] }) =
      .ok { Config.standard with methodAliases := [("f(uint256)", "h"), ("k()", "g")] } := rfl
  have hthird : Change.apply
      { Config.standard with methodAliases := [("f(uint256)", "h"), ("k()", "g")] }
      (.job "a.json" (.package "runtime")) =
      .ok ⟨some "a.json", "runtime", none, [("f(uint256)", "h"), ("k()", "g")]⟩ := rfl
  have hreaches := Reaches.changed (.changed (.changed .standard hfirst) hsecond) hthird
  obtain ⟨-, hlookup, -⟩ := hreaches.aliases_latest
  exact ⟨_, hreaches, hlookup _ _ hform, hlookup _ _ hother⟩

end Config

end AbiBindings
