/-
# Copying defaults into the directory of overrides

A default that is copied to its name among the overrides is read from there, with the same
text. So the same files are loaded and skipped for the same reasons, the agents of the
copied files are marked as overrides, and nothing planned for the agents changes.

The directory of overrides may have to be made first. Below a root that leads upwards
through a missing directory this can make overrides appear that were not found before,
and then other files are read from elsewhere. Such roots are excluded.
-/

import AgentKit.Proofs.Files.Writing
import AgentKit.Proofs.Plan.Sources
import AgentKit.Proofs.Roster.Layers

namespace AgentKit

open Files (Tree)

/-! ## Rosters of changed agents -/

namespace Roster

/-- A roster with its agents changed, each according to its file. -/
def mapAgents (change : String → Agent → Agent) (roster : Roster) : Roster :=
  roster.map fun (file, outcome) =>
    (file, match outcome with
      | .loaded agent => .loaded (change file agent)
      | .skipped reason => .skipped reason)

variable {change : String → Agent → Agent}

/-- The same files are skipped for the same reasons. -/
@[simp]
theorem skipped_mapAgents (change : String → Agent → Agent) (roster : Roster) :
    skipped (mapAgents change roster) = skipped roster := by
  rw [skipped, skipped, mapAgents, List.filterMap_map]
  refine List.filterMap_congr ?_
  rintro ⟨file, agent | reason⟩ _ <;> rfl

/-- A function that does not see the change sees the same agents. -/
theorem map_agents_mapAgents {α : Type} {view : Agent → α}
    (blind : ∀ file agent, view (change file agent) = view agent) (roster : Roster) :
    (agents (mapAgents change roster)).map view = (agents roster).map view := by
  induction roster with
  | nil => rfl
  | cons entry roster ih =>
      obtain ⟨file, agent | reason⟩ := entry
      · exact congrArg₂ List.cons (blind file agent) ih
      · exact ih

section Slugs

variable (keeps : ∀ file agent, (change file agent).slug = agent.slug)

include keeps

theorem fileOf?_mapAgents (roster : Roster) (slug : String) :
    fileOf? (mapAgents change roster) slug = fileOf? roster slug := by
  induction roster with
  | nil => rfl
  | cons entry roster ih =>
      obtain ⟨file, agent | reason⟩ := entry
      · simp only [fileOf?, mapAgents, List.map_cons, List.find?_cons, keeps] at ih ⊢
        cases agent.slug == slug
        · exact ih
        · rfl
      · exact ih

/-- Accepting files does not look at more of their agents than the slugs. -/
theorem extend_mapAgents (roster : Roster)
    (results : List (String × Except SkipReason Agent)) :
    extend (mapAgents change roster)
        (results.map fun (file, result) => (file, result.map (change file))) =
      mapAgents change (extend roster results) := by
  induction results generalizing roster with
  | nil => rfl
  | cons entry results ih =>
      obtain ⟨file, result⟩ := entry
      rw [List.map_cons, extend, extend, ← ih, mapAgents, mapAgents, List.map_append]
      congr 2
      cases result with
      | error reason => rfl
      | ok agent =>
          have same := fileOf?_mapAgents keeps roster agent.slug
          rw [mapAgents] at same
          simp only [Except.map, accept, keeps, same, List.map_cons, List.map_nil]
          cases roster.fileOf? agent.slug <;> rfl

theorem ofFiles_mapAgents (result : String → Except SkipReason Agent) (names : List String) :
    ofFiles (fun file => (result file).map (change file)) names =
      mapAgents change (ofFiles result names) := by
  rw [ofFiles, ofFiles, ← extend_mapAgents keeps, List.map_map]
  rfl

end Slugs

/-- The agent of a file, marked as an override if the file is one of some files. -/
def mark (files : List String) (file : String) (agent : Agent) : Agent :=
  if file ∈ files then agent.withSource .local else agent

theorem withSource_mark (files : List String) (file : String) (source : Source) (agent : Agent) :
    (mark files file agent).withSource source = agent.withSource source := by
  unfold mark
  split <;> rfl

theorem slug_mark (files : List String) (file : String) (agent : Agent) :
    (mark files file agent).slug = agent.slug := by
  rw [← Agent.slug_withSource .default, withSource_mark, Agent.slug_withSource]

/-- A roster with the agents of some files marked as overrides. -/
def overridden (files : List String) (roster : Roster) : Roster :=
  mapAgents (mark files) roster

/-- The marks change no plan. -/
theorem plan_overridden (files : List String) (roster : Roster) (target : Target)
    (locale : Locale) :
    target.plan locale (roster.overridden files).agents = target.plan locale roster.agents := by
  apply Target.plan_of_withSource .default
  exact map_agents_mapAgents (fun file => withSource_mark files file .default) roster

end Roster

namespace LoadRequest

variable {request : LoadRequest} {before middle after : Tree} {file : String}
  {files more : List String} {directory root : Path} {roster : Roster}

/-! ## Copying -/

/-- Write the text of a default under its name in a directory. -/
def copyDefault (request : LoadRequest) (directory : Path) (tree : Tree) (file : String) :
    Tree × Except Files.Fault Unit :=
  match request.defaultText tree file with
  | .error fault => (tree, .error fault)
  | .ok text => tree.overwrite (directory.join file) (.text text)

/-- Copy defaults into a directory, up to the first that cannot be copied. -/
def copyDefaults (request : LoadRequest) (directory : Path) (tree : Tree) :
    List String → Tree × Except Files.Fault Unit
  | [] => (tree, .ok ())
  | file :: files =>
    match request.copyDefault directory tree file with
    | (tree, .error fault) => (tree, .error fault)
    | (tree, .ok ()) => request.copyDefaults directory tree files

/-- Make a directory where it is missing and copy defaults into it. -/
def overrideDefaults (request : LoadRequest) (directory : Path) (files : List String)
    (tree : Tree) : Tree × Except Files.Fault Unit :=
  match tree.makeDirectories directory with
  | (tree, .error fault) => (tree, .error fault)
  | (tree, .ok ()) => request.copyDefaults directory tree files

/-- A default that is copied is one that can be read. -/
theorem copyDefault_eq_ok_iff :
    request.copyDefault directory before file = (after, .ok ()) ↔
      ∃ text, request.defaultText before file = .ok text ∧
        before.overwrite (directory.join file) (.text text) = (after, .ok ()) := by
  rw [copyDefault]
  cases request.defaultText before file <;> simp

theorem copyDefaults_cons_eq_ok_iff :
    request.copyDefaults directory before (file :: files) = (after, .ok ()) ↔
      ∃ middle, request.copyDefault directory before file = (middle, .ok ()) ∧
        request.copyDefaults directory middle files = (after, .ok ()) := by
  rw [copyDefaults]
  rcases request.copyDefault directory before file with ⟨middle, fault | ⟨⟩⟩ <;> simp

theorem overrideDefaults_eq_ok_iff :
    request.overrideDefaults directory files before = (after, .ok ()) ↔
      ∃ ready, before.makeDirectories directory = (ready, .ok ()) ∧
        request.copyDefaults directory ready files = (after, .ok ()) := by
  rw [overrideDefaults]
  rcases before.makeDirectories directory with ⟨ready, fault | ⟨⟩⟩ <;> simp

/-! ## What copies do to the layers -/

/-- Files that had no override have come to have their defaults as overrides, and nothing
else has changed that is looked at. -/
structure Copies (request : LoadRequest) (files : List String) (before after : Tree) : Prop extends
    request.KeepsDefaults before after where
  considered : ∀ file ∈ files, request.Considers before file
  bare : ∀ file ∈ files, request.overrideAt before file = none
  copied : ∀ file ∈ files, ∃ text, request.defaultText before file = .ok text ∧
    request.overrideAt after file = some (.file (.text text))
  others : ∀ file, request.Considers before file → file ∉ files →
    request.overrideAt after file = request.overrideAt before file

namespace Copies

theorem refl (request : LoadRequest) (tree : Tree) : request.Copies [] tree tree where
  toKeepsDefaults := .refl request tree
  considered _ member := by cases member
  bare _ member := by cases member
  copied _ member := by cases member
  others _ _ _ := rfl

theorem trans (first : request.Copies files before middle)
    (second : request.Copies more middle after) (there : request.HasDefaults before) :
    request.Copies (files ++ more) before after := by
  have considered_more (file : String) (member : file ∈ more) : request.Considers before file :=
    (first.considers_iff there).mp (second.considered file member)
  -- A file is not copied again: after the first copy it has an override.
  have fresh (file : String) (member : file ∈ more) : file ∉ files := by
    intro copied
    obtain ⟨text, _, found⟩ := first.copied file copied
    rw [second.bare file member] at found
    contradiction
  constructor
  case toKeepsDefaults => exact first.toKeepsDefaults.trans second.toKeepsDefaults
  case considered =>
    intro file member
    rcases List.mem_append.mp member with old | new
    · exact first.considered file old
    · exact considered_more file new
  case bare =>
    intro file member
    rcases List.mem_append.mp member with old | new
    · exact first.bare file old
    · rw [← first.others file (considered_more file new) (fresh file new)]
      exact second.bare file new
  case copied =>
    intro file member
    rcases List.mem_append.mp member with old | new
    · obtain ⟨text, read, found⟩ := first.copied file old
      refine ⟨text, read, ?_⟩
      rw [second.others file ((first.considers_iff there).mpr (first.considered file old))
        fun new => fresh file new old, found]
    · obtain ⟨text, read, found⟩ := second.copied file new
      exact ⟨text, (first.defaultText_eq (considered_more file new)).symm.trans read, found⟩
  case others =>
    intro file known outside
    rw [List.mem_append, not_or] at outside
    rw [second.others file ((first.considers_iff there).mpr known) outside.2,
      first.others file known outside.1]

end Copies

/-- The layer of a text shows in the source of its agent only. -/
theorem compose_local (request : LoadRequest) (file text : String) :
    request.compose file text .local =
      (request.compose file text .default).map (Agent.withSource .local) := by
  unfold compose
  cases Yaml.Value.ofText text with
  | error error => rfl
  | ok value => cases valid : Definition.ofValue value <;> simp only [valid] <;> rfl

theorem agentOf_of_copies (copies : request.Copies files before after)
    (considered : request.Considers before file) :
    request.agentOf after file = (request.agentOf before file).map (Roster.mark files file) := by
  by_cases inside : file ∈ files
  · obtain ⟨text, read, found⟩ := copies.copied file inside
    rw [agentOf_of_overrideAt_eq_some found, agentOf_of_overrideAt_eq_none (copies.bare file inside),
      read, ofOverride, compose_local]
    have marked : Roster.mark files file = Agent.withSource .local := funext fun _ => if_pos inside
    rw [marked]
  · rw [agentOf_congr rfl rfl (copies.others file considered inside) fun _ =>
      copies.defaultText_eq considered]
    have unmarked : Roster.mark files file = id := funext fun _ => if_neg inside
    rw [unmarked]
    cases request.agentOf before file <;> rfl

/-- After copies the agents of the copied files are marked, and nothing else is loaded
otherwise. -/
theorem load_of_copies (copies : request.Copies files before after)
    (loaded : request.load before = .ok roster) :
    request.load after = .ok (roster.overridden files) := by
  obtain ⟨names, considered, rfl, again⟩ := copies.load_eq loaded
  rw [again, Roster.overridden, ← Roster.ofFiles_mapAgents (Roster.slug_mark files)]
  refine congrArg _ (Roster.ofFiles_congr fun file member => ?_)
  exact agentOf_of_copies copies ((considered file).mp member)

/-! ## Making the directory -/

/-- Below a steady root, making the directory of overrides brings no override to light. -/
theorem copies_of_makeDirectories (given : request.overrides = some (root.join overridesDirectory))
    (steady : before.Steady root)
    (made : before.makeDirectories (root.join overridesDirectory) = (after, .ok ())) :
    request.Copies [] before after := by
  obtain ⟨grown, _⟩ := before.makeDirectories_spec (root.join overridesDirectory)
  rw [made] at grown
  have keeps := grown.keepsDirectories
  constructor
  case toKeepsDefaults =>
    refine ⟨keeps, fun path location file _ _ _ content => ?_⟩
    rcases grown.found (location ++ [file]) with kept | ⟨absent, new⟩
    · rw [kept]
    · simp [absent, new]
  case considered => simp
  case bare => simp
  case copied => simp
  case others =>
    intro file considered _
    apply overrideAt_of_keeps keeps (isName_of_considers considered) given
      (join_overrides_ne_empty root)
    · intro location led there
      exact steady.reach_join keeps isOrdinary_overrides led there
    · intro location led
      exact steady.find?_of_grownAlong isOrdinary_overrides grown led file

/-! ## One copy -/

/-- A copy of a default that had no override changes the layers at its file only. -/
theorem copies_of_copyDefault (given : request.overrides = some directory) (filled : directory ≠ "")
    (considered : request.Considers before file) (bare : request.overrideAt before file = none)
    (copied : request.copyDefault directory before file = (after, .ok ())) :
    request.Copies [file] before after := by
  have named := isName_of_considers considered
  obtain ⟨text, read, done⟩ := copyDefault_eq_ok_iff.mp copied
  obtain ⟨place, leads, written⟩ := Tree.written_of_overwrite done
  have keeps := written.keepsDirectories
  obtain ⟨location, led, rfl⟩ := Tree.of_target?_join_name named leads
  have again := keeps.reach led
  have absent : before.find? (location ++ [file]) = none :=
    (overrideAt_of_target? named given filled leads).symm.trans bare
  constructor
  case toKeepsDefaults =>
    refine ⟨keeps, fun path place name source reached _ content => ?_⟩
    have elsewhere : place ++ [name] ≠ location ++ [file] := by
      -- Otherwise the default itself would lie where the copy goes.
      intro here
      obtain ⟨_, found⟩ := considered
      rw [source] at found
      obtain ⟨also, old, reached', found⟩ := found
      rw [reached] at reached'
      obtain ⟨rfl, -⟩ := List.append_inj' here rfl
      rw [← Except.ok.inj reached', absent] at found
      contradiction
    rw [written.found, if_neg elsewhere]
  case considered => simpa using considered
  case bare => simpa using bare
  case copied =>
    intro name member
    obtain rfl := List.mem_singleton.mp member
    refine ⟨text, read, ?_⟩
    rw [overrideAt_of_target? named given filled (keeps.target? leads), written.found, if_pos rfl]
  case others =>
    intro name known other
    apply overrideAt_of_keeps keeps (isName_of_considers known) given filled
    · intro place reached _
      rw [again] at reached
      rw [led, reached]
    · intro place reached
      rw [again] at reached
      rw [← Except.ok.inj reached, written.found, if_neg]
      simpa using other

/-! ## All copies -/

/-- Copying one default after the other keeps the layers of all other files. -/
theorem copies_of_copyDefaults (given : request.overrides = some directory) (filled : directory ≠ "")
    (there : request.HasDefaults before) (distinct : files.Nodup)
    (considered : ∀ file ∈ files, request.Considers before file)
    (bare : ∀ file ∈ files, request.overrideAt before file = none)
    (copied : request.copyDefaults directory before files = (after, .ok ())) :
    request.Copies files before after := by
  induction files generalizing before with
  | nil =>
      obtain rfl : before = after := congrArg Prod.fst copied
      exact .refl request before
  | cons file files ih =>
      obtain ⟨middle, first, rest⟩ := copyDefaults_cons_eq_ok_iff.mp copied
      obtain ⟨fresh, distinct⟩ := List.nodup_cons.mp distinct
      have copies := copies_of_copyDefault given filled (considered file List.mem_cons_self)
        (bare file List.mem_cons_self) first
      have considered' (name : String) (member : name ∈ files) : request.Considers middle name :=
        (copies.considers_iff there).mpr (considered name (List.mem_cons_of_mem _ member))
      have bare' (name : String) (member : name ∈ files) : request.overrideAt middle name = none := by
        have other : name ∉ [file] := fun same => fresh (List.mem_singleton.mp same ▸ member)
        rw [copies.others name (considered name (List.mem_cons_of_mem _ member)) other]
        exact bare name (List.mem_cons_of_mem _ member)
      exact copies.trans (ih (copies.hasDefaults there) distinct considered' bare' rest) there

/-- Below a steady root, copying defaults that have no override into the directory of
overrides, which is made where it is missing, changes what is loaded only in the sources of
their agents. The same files are skipped for the same reasons, and every plan is the same. -/
theorem load_of_overrideDefaults (given : request.overrides = some (root.join overridesDirectory))
    (steady : before.Steady root) (loaded : request.load before = .ok roster)
    (distinct : files.Nodup)
    (bare : ∀ file ∈ files, request.Considers before file ∧ ¬ request.Overrides before file)
    (copied : request.overrideDefaults (root.join overridesDirectory) files before =
      (after, .ok ())) :
    request.load after = .ok (roster.overridden files) ∧
      (roster.overridden files).skipped = roster.skipped ∧
      ∀ (target : Target) (locale : Locale),
        target.plan locale (roster.overridden files).agents =
          target.plan locale roster.agents := by
  have there := hasDefaults_of_load loaded
  obtain ⟨ready, made, rest⟩ := overrideDefaults_eq_ok_iff.mp copied
  have room := copies_of_makeDirectories given steady made
  have considered (file : String) (member : file ∈ files) : request.Considers ready file :=
    (room.considers_iff there).mpr (bare file member).1
  have bare' (file : String) (member : file ∈ files) : request.overrideAt ready file = none := by
    rw [room.others file (bare file member).1 List.not_mem_nil, overrideAt_eq_none_iff]
    exact (bare file member).2
  have copies := copies_of_copyDefaults given (join_overrides_ne_empty root)
    (room.hasDefaults there) distinct considered bare' rest
  exact ⟨load_of_copies (room.trans copies there) loaded, Roster.skipped_mapAgents _ _,
    Roster.plan_overridden files roster⟩

/-! ## The copy of one twin -/

/-- The request for the twins with a directory of overrides below a root. -/
def copyingRequest (root : Path) : LoadRequest :=
  { Target.twinRequest with overrides := some (root.join overridesDirectory) }

/-- Where that directory is not there, the twins are loaded. -/
theorem load_copyingRequest {tree : Tree}
    (missing : tree.isDirectory (root.join overridesDirectory) = false)
    (listed : (copyingRequest root).unsortedFiles tree = .ok ["a-b.yaml", "a_b.yaml"])
    (texts : ∀ file ∈ ["a-b.yaml", "a_b.yaml"],
      (copyingRequest root).defaultText tree file = .ok Target.twinText) :
    (copyingRequest root).load tree = .ok Target.twinRoster := by
  have twins : Target.twinRequest.unsortedFiles Target.twinTree =
      .ok ["a-b.yaml", "a_b.yaml"] := by rfl
  have texts' : ∀ file ∈ ["a-b.yaml", "a_b.yaml"],
      Target.twinRequest.defaultText Target.twinTree file = .ok Target.twinText := by
    decide +kernel
  have absent : (copyingRequest root).presentOverrides tree = none := by
    simp [presentOverrides, copyingRequest, missing]
  have absent' : Target.twinRequest.presentOverrides Target.twinTree = none := rfl
  have same : SameLayers Target.twinRequest (copyingRequest root) Target.twinTree tree := by
    constructor
    case locale => rfl
    case globalRules => rfl
    case listed => exact ⟨_, _, twins, listed, fun file => .rfl⟩
    case overrides =>
      intro file _
      simp only [overrideAt, absent, absent', Option.bind_none]
    case defaults =>
      intro file considered _
      rw [← (files_of_unsortedFiles twins).1] at considered
      rw [texts file considered, texts' file considered]
  have known := load_of_files (Target.files_of_unsortedFiles_eq_twins twins)
  have considered := (files_of_unsortedFiles twins).1
  rw [Target.load_twinTree_eq] at known
  rw [load_of_files (Target.files_of_unsortedFiles_eq_twins listed), known,
    Roster.ofFiles_congr fun file member => same.agentOf ((considered file).mp member)]

theorem bare_copyingRequest {tree : Tree}
    (missing : tree.isDirectory (root.join overridesDirectory) = false) (file : String) :
    ¬ (copyingRequest root).Overrides tree file := by
  rintro ⟨directory, given, there, _⟩
  rw [← Option.some.inj given, missing] at there
  contradiction

/-- One of the twins is copied, and only its source changes. -/
theorem load_overridden_twin :
    ∃ after,
      (copyingRequest "p").overrideDefaults (Path.join "p" overridesDirectory) ["a-b.yaml"]
        Target.twinTree = (after, .ok ()) ∧
      (copyingRequest "p").load after = .ok (Target.twinRoster.overridden ["a-b.yaml"]) ∧
      (Target.twinRoster.overridden ["a-b.yaml"]).agents =
        [(Target.twin "a-b").withSource .local, Target.twin "a_b"] := by
  have missing : Target.twinTree.isDirectory (Path.join "p" overridesDirectory) = false := by
    decide +kernel
  have loaded : (copyingRequest "p").load Target.twinTree = .ok Target.twinRoster :=
    load_copyingRequest missing rfl (by decide +kernel)
  have done : ((copyingRequest "p").overrideDefaults (Path.join "p" overridesDirectory)
      ["a-b.yaml"] Target.twinTree).2 = .ok () := by
    decide +kernel
  rcases copied : (copyingRequest "p").overrideDefaults (Path.join "p" overridesDirectory)
    ["a-b.yaml"] Target.twinTree with ⟨after, outcome⟩
  rw [copied] at done
  obtain rfl : outcome = .ok () := done
  have bare : ∀ file ∈ ["a-b.yaml"], (copyingRequest "p").Considers Target.twinTree file ∧
      ¬ (copyingRequest "p").Overrides Target.twinTree file := by
    intro file member
    rw [List.mem_singleton.mp member]
    exact ⟨⟨⟨"a-b", by decide, .inl rfl⟩, ["d"], .text Target.twinText, by rfl, by rfl⟩,
      bare_copyingRequest missing _⟩
  have steady : Target.twinTree.Steady "p" := .inr (by decide)
  obtain ⟨again, _⟩ := load_of_overrideDefaults rfl steady loaded (by decide) bare copied
  exact ⟨after, rfl, again, rfl⟩

/-! ## A root through a missing directory -/

/-- The twins, and a directory where one of them would have its override below `b`, to which
`a/../b` leads once `a` is there. -/
def crossedTree : Tree where
  entries := Target.twinTree.entries ++
    [(["b"], .directory), (["b", ".sdd-toolkit"], .directory),
     (["b", ".sdd-toolkit", "agents"], .directory),
     (["b", ".sdd-toolkit", "agents", "a_b.yaml"], .directory)]
  workingDirectory := []

/-- The copy of one of the twins makes `a`, and the other one is not loaded any more. -/
theorem load_overridden_crossed :
    (copyingRequest "a/../b").load crossedTree = .ok Target.twinRoster ∧
      (copyingRequest "a/../b").Considers crossedTree "a-b.yaml" ∧
      ¬ (copyingRequest "a/../b").Overrides crossedTree "a-b.yaml" ∧
      ∃ after roster,
        (copyingRequest "a/../b").overrideDefaults (Path.join "a/../b" overridesDirectory)
          ["a-b.yaml"] crossedTree = (after, .ok ()) ∧
        (copyingRequest "a/../b").load after = .ok roster ∧
        ("a_b.yaml", .unreadable .isDirectory) ∈ roster.skipped ∧
        roster ≠ Target.twinRoster.overridden ["a-b.yaml"] := by
  have missing : crossedTree.isDirectory (Path.join "a/../b" overridesDirectory) = false := by
    decide +kernel
  have loaded : (copyingRequest "a/../b").load crossedTree = .ok Target.twinRoster :=
    load_copyingRequest missing rfl (by decide +kernel)
  have considered : (copyingRequest "a/../b").Considers crossedTree "a-b.yaml" :=
    ⟨⟨"a-b", by decide, .inl rfl⟩, ["d"], .text Target.twinText, by rfl, by rfl⟩
  refine ⟨loaded, considered, bare_copyingRequest missing _, ?_⟩
  have done : ((copyingRequest "a/../b").overrideDefaults (Path.join "a/../b" overridesDirectory)
      ["a-b.yaml"] crossedTree).2 = .ok () := by
    decide +kernel
  have listed : (copyingRequest "a/../b").unsortedFiles
      ((copyingRequest "a/../b").overrideDefaults (Path.join "a/../b" overridesDirectory)
        ["a-b.yaml"] crossedTree).1 = .ok ["a-b.yaml", "a_b.yaml"] := by
    decide +kernel
  have overridden : (copyingRequest "a/../b").overrideAt
      ((copyingRequest "a/../b").overrideDefaults (Path.join "a/../b" overridesDirectory)
        ["a-b.yaml"] crossedTree).1 "a_b.yaml" = some .directory := by
    decide +kernel
  rcases copied : (copyingRequest "a/../b").overrideDefaults (Path.join "a/../b" overridesDirectory)
    ["a-b.yaml"] crossedTree with ⟨after, outcome⟩
  rw [copied] at done listed overridden
  obtain rfl : outcome = .ok () := done
  have again := load_of_files (Target.files_of_unsortedFiles_eq_twins listed)
  have skipped : ("a_b.yaml", .unreadable .isDirectory) ∈ (Roster.ofFiles
      ((copyingRequest "a/../b").agentOf after) ["a-b.yaml", "a_b.yaml"]).skipped := by
    rw [Roster.mem_skipped_iff, Roster.skipped_mem_ofFiles_iff (by simp)]
    exact ⟨by simp, agentOf_of_overrideAt_eq_some overridden⟩
  refine ⟨after, _, rfl, again, skipped, fun same => ?_⟩
  rw [same, Roster.overridden, Roster.skipped_mapAgents] at skipped
  cases skipped

end LoadRequest

end AgentKit
