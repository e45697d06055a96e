/-
# Overrides hide defaults

What is at the path of an override decides alone what its definition file yields: a
directory and bytes that are no text are reported as unreadable, and a text is parsed and
validated by itself. The default is looked at only where there is nothing, so two requests
that find the same overrides, and the same defaults for the other files, load the same.

The two requests can name different directories and look at unrelated trees; entries of
the directory of overrides under other names are never looked at.
-/

import AgentKit.Proofs.Files.Below
import AgentKit.Proofs.Plan.Installed

namespace AgentKit.LoadRequest

open Files (Tree Entry)

variable {request other : LoadRequest} {tree tree' : Tree} {file : String} {entry : Entry}

/-! ## One file -/

/-- What there is in the directory of overrides for a file. Without the directory there
is nothing. -/
def overrideAt (request : LoadRequest) (tree : Tree) (file : String) : Option Entry :=
  (request.presentOverrides tree).bind fun directory =>
    (tree.entryAt (directory.join file)).toOption

/-- What a file yields by itself if its override is a given entry. -/
def ofOverride (request : LoadRequest) (file : String) : Entry → Except SkipReason Agent
  | .directory => .error (.unreadable .isDirectory)
  | .file (.binary _) => .error (.unreadable .notText)
  | .file (.text text) => request.compose file text .local

theorem overrideAt_eq_some_iff :
    request.overrideAt tree file = some entry ↔
      ∃ directory, request.presentOverrides tree = some directory ∧
        tree.entryAt (directory.join file) = .ok entry := by
  rw [overrideAt, Option.bind_eq_some_iff]
  refine exists_congr fun directory => and_congr_right fun _ => ?_
  cases tree.entryAt (directory.join file) <;> simp [Except.toOption]

/-- A file with an override is what its override makes of it. -/
theorem agentOf_of_overrideAt_eq_some (overridden : request.overrideAt tree file = some entry) :
    request.agentOf tree file = request.ofOverride file entry := by
  obtain ⟨directory, present, there⟩ := overrideAt_eq_some_iff.mp overridden
  have seen : tree.isThere (directory.join file) := Tree.isThere_iff.mpr ⟨entry, there⟩
  simp only [agentOf, readDefinition, present, seen, if_true, Tree.readText, there]
  rcases entry with _ | (text | bytes) <;> rfl

/-- Without an override a file is what its default makes of it. -/
theorem agentOf_of_overrideAt_eq_none (bare : request.overrideAt tree file = none) :
    request.agentOf tree file =
      match request.defaultText tree file with
      | .error fault => .error (.unreadable fault)
      | .ok text => request.compose file text .default := by
  have read : request.readDefinition tree file =
      (request.defaultText tree file).map (·, Source.default) := by
    rw [readDefinition]
    cases present : request.presentOverrides tree with
    | none => rfl
    | some directory =>
        have absent : tree.isThere (directory.join file) = false := by
          cases looked : tree.entryAt (directory.join file) with
          | error fault => rw [Tree.isThere, looked]
          | ok entry => simp [overrideAt, present, looked, Except.toOption] at bare
        simp only [absent, Bool.false_eq_true, if_false]
  rw [agentOf, read]
  cases request.defaultText tree file <;> rfl

/-- What a text makes of a file depends on the locale and the global rules only. -/
theorem compose_congr (locale : other.locale = request.locale)
    (globalRules : other.globalRules = request.globalRules) : other.compose = request.compose := by
  funext file text source
  simp only [compose, locale, globalRules]

/-- A file yields the same with the same override, and with the same default if it has no
override. -/
theorem agentOf_congr (locale : other.locale = request.locale)
    (globalRules : other.globalRules = request.globalRules)
    (overrides : other.overrideAt tree' file = request.overrideAt tree file)
    (defaults : request.overrideAt tree file = none →
      other.defaultText tree' file = request.defaultText tree file) :
    other.agentOf tree' file = request.agentOf tree file := by
  have composed := compose_congr locale globalRules
  cases overridden : request.overrideAt tree file with
  | some entry =>
      rw [overridden] at overrides
      rw [agentOf_of_overrideAt_eq_some overridden, agentOf_of_overrideAt_eq_some overrides]
      rcases entry with _ | (text | bytes)
      · rfl
      · rw [ofOverride, ofOverride, composed]
      · rfl
  | none =>
      rw [overridden] at overrides
      rw [agentOf_of_overrideAt_eq_none overridden, agentOf_of_overrideAt_eq_none overrides,
        defaults overridden, composed]

/-! ## Loading -/

/-- Two requests in their trees list the same definition files, and find the same
overrides of them and the same defaults of those without an override. -/
structure SameLayers (request other : LoadRequest) (tree tree' : Tree) : Prop where
  locale : other.locale = request.locale
  globalRules : other.globalRules = request.globalRules
  listed : ∃ names names', request.unsortedFiles tree = .ok names ∧
    other.unsortedFiles tree' = .ok names' ∧ ∀ file, file ∈ names' ↔ file ∈ names
  overrides : ∀ file, request.Considers tree file →
    other.overrideAt tree' file = request.overrideAt tree file
  defaults : ∀ file, request.Considers tree file → request.overrideAt tree file = none →
    other.defaultText tree' file = request.defaultText tree file

theorem SameLayers.agentOf (same : SameLayers request other tree tree')
    (considered : request.Considers tree file) :
    other.agentOf tree' file = request.agentOf tree file :=
  agentOf_congr same.locale same.globalRules (same.overrides file considered)
    (same.defaults file considered)

/-- The files of a default source that is there. -/
theorem files_of_unsortedFiles {names : List String}
    (listed : request.unsortedFiles tree = .ok names) :
    (∀ file, file ∈ names ↔ request.Considers tree file) ∧
      ∃ files, request.files tree = .ok files ∧ files.Pairwise (· < ·) ∧
        ∀ file, file ∈ files ↔ request.Considers tree file := by
  rcases unsortedFiles_spec request tree with ⟨found, also, distinct, considered⟩ | ⟨_, _, _, failed⟩
  · obtain rfl := Except.ok.inj (listed.symm.trans also)
    refine ⟨considered, _, by rw [files, listed]; rfl, pairwise_mergeSort_lt distinct, fun file => ?_⟩
    rw [List.mem_mergeSort]
    exact considered file
  · rw [listed] at failed
    contradiction

end AgentKit.LoadRequest
