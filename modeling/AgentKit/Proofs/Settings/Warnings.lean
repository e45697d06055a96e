/-
# What warnings tell

Every warning about settings says beforehand how a decision will turn out that is taken
elsewhere: whether a tool names a target, whether a profile is known, and in which language the
recorded one is found. So settings without warnings are taken at their word: each tool names a
target, the profile is known, and the language is recorded under its own key.

Settings that are stamped have no tool and no language to warn of, whatever they were before,
because both are recorded by their keys. Only an unknown profile would pass.
-/

import AgentKit.Proofs.Locale.Resolution
import AgentKit.Settings

namespace AgentKit

theorem Target.ofText?_key (target : Target) : Target.ofText? target.key = some target := by
  cases target <;> decide +kernel

namespace Settings

variable {settings : Settings} {key : String}

/-- The tool that a warning is about. -/
def Warning.tool? : Warning → Option String
  | .unknownTool tool => some tool
  | .unknownProfile _ | .inexactLocale _ _ => none

/-- Tools are sorted into the targets that they name and those that name none, both in their
order. -/
inductive Sorts : List String → List Target → List String → Prop where
  | nil : Sorts [] [] []
  | known {tool : String} {target : Target} {tools unknown : List String}
    {targets : List Target} (names : Target.ofText? tool = some target)
    (others : Sorts tools targets unknown) : Sorts (tool :: tools) (target :: targets) unknown
  | unknown {tool : String} {tools unknown : List String} {targets : List Target}
    (names_none : Target.ofText? tool = none) (others : Sorts tools targets unknown) :
    Sorts (tool :: tools) targets (tool :: unknown)

theorem sorts_filterMap (tools : List String) :
    Sorts tools (tools.filterMap Target.ofText?)
      (tools.filter fun tool => (Target.ofText? tool).isNone) := by
  induction tools with
  | nil => exact .nil
  | cons tool tools ih =>
      cases named : Target.ofText? tool with
      | none => simpa [named] using .unknown named ih
      | some target => simpa [named] using .known named ih

/-! ## Single warnings -/

theorem mem_warnings_iff {warning : Warning} :
    warning ∈ settings.warnings ↔
      (∃ tool ∈ settings.tools, Target.ofText? tool = none ∧ warning = .unknownTool tool) ∨
      (∃ key, settings.profile = some key ∧ StackProfile.find? key = none ∧
        warning = .unknownProfile key) ∨
      (settings.resolvedLocale.key ≠ settings.locale ∧
        warning = .inexactLocale settings.locale settings.resolvedLocale) := by
  rw [warnings, List.mem_append, List.mem_append, or_assoc]
  refine or_congr ?_ (or_congr ?_ ?_)
  · simp only [toolWarnings, List.mem_map, List.mem_filter, Option.isNone_iff_eq_none, and_assoc,
      @eq_comm _ warning]
  · simp only [profileWarnings, List.mem_map, List.mem_filter, Option.mem_toList,
      Option.isNone_iff_eq_none, and_assoc, @eq_comm _ warning]
  · by_cases exact_key : settings.resolvedLocale.key = settings.locale <;>
      simp [localeWarnings, exact_key]

/-- The tools that are warned about are those that name no target, in their order. -/
theorem filterMap_tool?_warnings (settings : Settings) :
    settings.warnings.filterMap Warning.tool? =
      settings.tools.filter fun tool => (Target.ofText? tool).isNone := by
  have profile : settings.profileWarnings.filterMap Warning.tool? = [] := by
    simp [profileWarnings, Warning.tool?, List.filterMap_map, Function.comp_def]
  have locale : settings.localeWarnings.filterMap Warning.tool? = [] := by
    by_cases exact_key : settings.resolvedLocale.key = settings.locale <;>
      simp [localeWarnings, Warning.tool?, exact_key]
  have tools : settings.toolWarnings.filterMap Warning.tool? =
      settings.tools.filter fun tool => (Target.ofText? tool).isNone := by
    simp [toolWarnings, Warning.tool?, List.filterMap_map, Function.comp_def]
  rw [warnings, List.filterMap_append, List.filterMap_append, tools, profile, locale,
    List.append_nil, List.append_nil]

/-- The recorded tools are those that name targets together with those that are warned about. -/
theorem sorts_tools (settings : Settings) :
    Sorts settings.tools settings.targets (settings.warnings.filterMap Warning.tool?) := by
  rw [filterMap_tool?_warnings]
  exact sorts_filterMap settings.tools

theorem Warning.level_eq_error_iff {warning : Warning} :
    warning.level = "error" ↔ ∃ key, warning = .unknownProfile key := by
  cases warning <;> simp [level]

theorem unknownProfile_mem_warnings_iff :
    .unknownProfile key ∈ settings.warnings ↔
      settings.profile = some key ∧ StackProfile.find? key = none := by
  simp [mem_warnings_iff, eq_comm]

/-! ## Settings without warnings -/

theorem warnings_eq_nil_iff :
    settings.warnings = [] ↔
      (∀ tool ∈ settings.tools, ∃ target, Target.ofText? tool = some target) ∧
      (∀ key, settings.profile = some key → ∃ profile, StackProfile.find? key = some profile) ∧
      settings.resolvedLocale.key = settings.locale := by
  have tools : settings.toolWarnings = [] ↔
      ∀ tool ∈ settings.tools, ∃ target, Target.ofText? tool = some target := by
    simp [toolWarnings, Option.ne_none_iff_exists']
  have profile : settings.profileWarnings = [] ↔
      ∀ key, settings.profile = some key → ∃ profile, StackProfile.find? key = some profile := by
    simp [profileWarnings, Option.ne_none_iff_exists']
  have locale : settings.localeWarnings = [] ↔ settings.resolvedLocale.key = settings.locale := by
    simp [localeWarnings]
  rw [warnings, List.append_eq_nil_iff, List.append_eq_nil_iff, tools, profile, locale, and_assoc]

/-- Tools that all name targets name the targets of the settings, one by one. -/
theorem map_ofText?_tools
    (known : ∀ tool ∈ settings.tools, ∃ target, Target.ofText? tool = some target) :
    settings.tools.map Target.ofText? = settings.targets.map some := by
  rw [targets]
  generalize settings.tools = tools at known ⊢
  induction tools with
  | nil => rfl
  | cons tool tools ih =>
      obtain ⟨target, named⟩ := known tool List.mem_cons_self
      have others := ih fun other member => known other (List.mem_cons_of_mem _ member)
      rw [List.map_cons, others, List.filterMap_cons_some named, List.map_cons, named]

/-- Recorded tools are the keys of their targets exactly if they were recorded as keys. -/
theorem map_key_targets_eq_iff :
    settings.targets.map Target.key = settings.tools ↔
      ∀ tool ∈ settings.tools, ∃ target : Target, tool = target.key := by
  constructor
  · intro same tool member
    rw [← same] at member
    obtain ⟨target, _, rfl⟩ := List.mem_map.mp member
    exact ⟨target, rfl⟩
  · intro keys
    rw [targets]
    generalize settings.tools = tools at keys ⊢
    induction tools with
    | nil => rfl
    | cons tool tools ih =>
        obtain ⟨target, rfl⟩ := keys tool List.mem_cons_self
        rw [List.filterMap_cons_some (Target.ofText?_key target), List.map_cons,
          ih fun other member => keys other (List.mem_cons_of_mem _ member)]

/-! ## Stamped settings -/

section Stamped

variable (settings) (targets : List Target) (locale : Locale) (rules profile : Option String)
  (toolkit : String) (time : Timestamp)

theorem targets_stamp :
    (settings.stamp targets locale rules profile toolkit time).targets = targets := by
  simp [Settings.targets, stamp, List.filterMap_map, Target.ofText?_key]

theorem resolvedLocale_stamp :
    (settings.stamp targets locale rules profile toolkit time).resolvedLocale = locale :=
  Locale.resolve_key locale

/-- Of stamped settings only the profile can be unknown. -/
theorem warnings_stamp_eq_nil_iff :
    (settings.stamp targets locale rules profile toolkit time).warnings = [] ↔
      ∀ key, profile = some key → ∃ known, StackProfile.find? key = some known := by
  rw [warnings_eq_nil_iff, resolvedLocale_stamp]
  have keys : ∀ tool ∈ targets.map Target.key, ∃ target, Target.ofText? tool = some target := by
    intro tool member
    obtain ⟨target, _, rfl⟩ := List.mem_map.mp member
    exact ⟨target, Target.ofText?_key target⟩
  exact ⟨fun clean => clean.2.1, fun known => ⟨keys, known, rfl⟩⟩

end Stamped

end Settings

end AgentKit
