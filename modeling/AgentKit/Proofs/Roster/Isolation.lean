/-
# Files that fail

A definition file that cannot be read, is no YAML or does not validate does not
influence what the other files yield. It holds no slug, so accepting the results of
files commutes with leaving out those that fail: this is proved for the files in any
order, and the order of the names then places the entry of a file that is added.

Two trees are compared that hold the same in the directories of a request, but perhaps
not under some names. Elsewhere they need not have anything in common.
-/

import AgentKit.Proofs.Files.Below
import AgentKit.Proofs.Plan.Installed

namespace AgentKit

namespace Roster

variable {roster : Roster} {results : List (String × Except SkipReason Agent)}
  {dropped : List String}

/-! ## Leaving out files that fail -/

/-- Files under some names yield no agents. -/
def Skips (dropped : List String) (roster : Roster) : Prop :=
  ∀ file ∈ dropped, ∀ outcome, (file, outcome) ∈ roster → ∃ reason, outcome = .skipped reason

theorem Skips.concat (skips : Skips dropped roster) {file : String} {outcome : LoadOutcome}
    (last : file ∈ dropped → ∃ reason, outcome = .skipped reason) :
    Skips dropped (roster ++ [(file, outcome)]) := by
  intro name inside found member
  rcases List.mem_append.mp member with old | new
  · exact skips name inside found old
  · obtain ⟨rfl, rfl⟩ : name = file ∧ found = outcome := by simpa using new
    exact last inside

/-- Skipped files hold no slugs. -/
theorem fileOf?_filter (skips : Skips dropped roster) (slug : String) :
    fileOf? (roster.filter (·.1 ∉ dropped)) slug = roster.fileOf? slug := by
  rw [fileOf?, fileOf?, List.find?_filter]
  congr 1
  refine List.find?_congr ?_
  rintro ⟨file, outcome⟩ member
  by_cases inside : file ∈ dropped
  · obtain ⟨reason, rfl⟩ := skips file inside outcome member
    simp
  · simp [inside]

theorem accept_filter (skips : Skips dropped roster) (result : Except SkipReason Agent) :
    accept (roster.filter (·.1 ∉ dropped)) result = roster.accept result := by
  cases result with
  | error reason => rfl
  | ok agent => rw [accept, accept, fileOf?_filter skips]

theorem agents_filter (skips : Skips dropped roster) :
    agents (roster.filter (·.1 ∉ dropped)) = roster.agents := by
  rw [agents, agents, List.filterMap_filter]
  refine List.filterMap_congr ?_
  rintro ⟨file, outcome⟩ member
  by_cases inside : file ∈ dropped
  · obtain ⟨reason, rfl⟩ := skips file inside outcome member
    simp
  · simp [inside]

theorem skipped_filter (dropped : List String) (roster : Roster) :
    skipped (roster.filter (·.1 ∉ dropped)) = roster.skipped.filter (·.1 ∉ dropped) := by
  rw [skipped, skipped, List.filterMap_filter, List.filter_filterMap]
  congr 1
  funext entry
  obtain ⟨file, outcome⟩ := entry
  cases outcome <;> by_cases inside : file ∈ dropped <;> simp [Option.filter, inside]

/-- Accepting results commutes with leaving out files that fail. -/
theorem filter_extend (skips : Skips dropped roster)
    (fails : ∀ file ∈ dropped, ∀ result, (file, result) ∈ results →
      ∃ reason, result = .error reason) :
    (roster.extend results).filter (·.1 ∉ dropped) =
      extend (roster.filter (·.1 ∉ dropped)) (results.filter (·.1 ∉ dropped)) := by
  induction results generalizing roster with
  | nil => rfl
  | cons entry results ih =>
      obtain ⟨file, result⟩ := entry
      have later := fun name inside found member =>
        fails name inside found (List.mem_cons_of_mem (file, result) member)
      have next : Skips dropped (roster ++ [(file, roster.accept result)]) := by
        refine skips.concat fun inside => ?_
        obtain ⟨reason, rfl⟩ := fails file inside result List.mem_cons_self
        exact ⟨reason, rfl⟩
      rw [extend, ih next later, List.filter_append]
      by_cases inside : file ∈ dropped
      · simp [inside]
      · simp only [List.filter_cons, inside, not_false_eq_true, decide_true, ite_true,
          List.filter_nil, extend, accept_filter skips]

section InOrder

variable {result : String → Except SkipReason Agent} {names : List String}

/-- Files whose results fail can be left out. -/
theorem filter_ofFiles
    (fails : ∀ file ∈ names, file ∈ dropped → ∃ reason, result file = .error reason) :
    (ofFiles result names).filter (·.1 ∉ dropped) = ofFiles result (names.filter (· ∉ dropped)) := by
  rw [ofFiles, ofFiles, filter_extend]
  · rw [List.filter_nil, List.filter_map]
    rfl
  · intro file inside outcome member
    cases member
  · intro file inside found member
    obtain ⟨name, considered, same⟩ := List.mem_map.mp member
    obtain ⟨rfl, rfl⟩ : name = file ∧ result name = found := by simpa using same
    exact fails name considered inside

/-- In a roster of files, those that fail by themselves are skipped. -/
theorem skips_ofFiles
    (fails : ∀ file ∈ names, file ∈ dropped → ∃ reason, result file = .error reason) :
    Skips dropped (ofFiles result names) := by
  intro file inside outcome member
  obtain ⟨before, after, rfl, rfl⟩ := mem_ofFiles_iff.mp member
  obtain ⟨reason, failed⟩ := fails file (by simp) inside
  exact ⟨reason, by rw [failed]; rfl⟩

end InOrder

end Roster

namespace LoadRequest

open Files (Tree)

variable {request : LoadRequest} {tree first second : Tree} {names : List String}
  {file : String} {path : Path} {reason : SkipReason}

/-- By itself a definition file yields no agent, for a reason. -/
inductive Fails (request : LoadRequest) (tree : Tree) (file : String) : SkipReason → Prop
  | unreadable {fault : Files.Fault} (unread : request.readDefinition tree file = .error fault) :
      Fails request tree file (.unreadable fault)
  | malformed {text : String} {source : Source} {error : Yaml.Error}
      (read : request.readDefinition tree file = .ok (text, source))
      (refused : Yaml.Value.ofText text = .error error) :
      Fails request tree file (.malformed error)
  | invalid {text : String} {source : Source} {value : Yaml.Value}
      {issues : List Definition.Issue}
      (read : request.readDefinition tree file = .ok (text, source))
      (parsed : Yaml.Value.ofText text = .ok value)
      (refused : Definition.ofValue value = .error issues) :
      Fails request tree file (.invalid issues)

theorem fails_iff : request.Fails tree file reason ↔ request.agentOf tree file = .error reason := by
  constructor
  · rintro (unread | ⟨read, refused⟩ | ⟨read, parsed, refused⟩)
    · rw [agentOf, unread]
    · simp only [agentOf, read, compose, refused]
    · simp only [agentOf, read, compose, parsed, refused]
  · intro failed
    unfold agentOf compose at failed
    split at failed
    · next unread =>
      obtain rfl := Except.error.inj failed
      exact .unreadable unread
    · next read =>
      split at failed
      · next refused =>
        obtain rfl := Except.error.inj failed
        exact .malformed read refused
      · next parsed =>
        split at failed
        · next refused =>
          obtain rfl := Except.error.inj failed
          exact .invalid read parsed refused
        · contradiction

/-! ## Trees that hold the same but under some names -/

/-- The paths of the directories that a request names. -/
def Names (request : LoadRequest) (path : Path) : Prop :=
  request.defaults = .directory path ∨ request.overrides = some path

/-- Two trees hold the same in the directories of a request, but perhaps not under some
names. -/
structure AlikeBut (request : LoadRequest) (names : List String) (first second : Tree) :
    Prop where
  reached : ∀ path, request.Names path → second.reach path = first.reach path
  found : ∀ path location name, request.Names path → first.reach path = .ok location →
    name ∉ names → second.find? (location ++ [name]) = first.find? (location ++ [name])

namespace AlikeBut

theorem isDirectory (alike : request.AlikeBut names first second) (named : request.Names path) :
    second.isDirectory path = first.isDirectory path := by
  rw [Bool.eq_iff_iff, Tree.isDirectory_iff, Tree.isDirectory_iff, alike.reached path named]

theorem entryAt (alike : request.AlikeBut names first second) (named : request.Names path)
    (proper : Files.isName file) (other : file ∉ names) :
    second.entryAt (path.join file) = first.entryAt (path.join file) := by
  cases flaw : Files.flaw? (path.join file) with
  | some fault => rw [Tree.entryAt_of_flaw flaw, Tree.entryAt_of_flaw flaw]
  | none =>
      rw [Tree.entryAt_join proper flaw, Tree.entryAt_join proper flaw, alike.reached path named]
      cases reached : first.reach path with
      | error fault => rfl
      | ok location =>
          simp only [bind, Except.bind, Tree.lookUp, alike.found path location file named reached other]

theorem presentOverrides (alike : request.AlikeBut names first second) :
    request.presentOverrides second = request.presentOverrides first := by
  rw [LoadRequest.presentOverrides, LoadRequest.presentOverrides]
  cases given : request.overrides with
  | none => rfl
  | some path => rw [Option.filter_some, Option.filter_some, alike.isDirectory (.inr given)]

/-- The definition under another name is read as before. -/
theorem readDefinition (alike : request.AlikeBut names first second)
    (proper : Files.isName file) (other : file ∉ names) :
    request.readDefinition second file = request.readDefinition first file := by
  have default : request.defaultText second file = request.defaultText first file := by
    unfold defaultText
    split
    · rfl
    · next source => rw [Tree.readText, Tree.readText, alike.entryAt (.inl source) proper other]
  rw [LoadRequest.readDefinition, LoadRequest.readDefinition, alike.presentOverrides, default]
  cases present : request.presentOverrides first with
  | none => rfl
  | some path =>
      have given : request.overrides = some path := (Option.filter_eq_some_iff.mp present).1
      have there := alike.entryAt (.inr given) proper other
      simp only [Tree.isThere, Tree.readText, there]
      rfl

theorem agentOf (alike : request.AlikeBut names first second)
    (proper : Files.isName file) (other : file ∉ names) :
    request.agentOf second file = request.agentOf first file := by
  rw [LoadRequest.agentOf, LoadRequest.agentOf, alike.readDefinition proper other]

theorem considers (alike : request.AlikeBut names first second) (other : file ∉ names) :
    request.Considers second file ↔ request.Considers first file := by
  refine and_congr_right fun _ => ?_
  cases source : request.defaults with
  | bundled => rfl
  | directory path =>
      refine exists_congr fun location => exists_congr fun content => ?_
      rw [alike.reached path (.inl source)]
      refine and_congr_right fun reached => ?_
      rw [alike.found path location file (.inl source) reached other]

end AlikeBut

/-! ## Broken definitions -/

/-- What loading yields where the files under some names fail, compared with what it
yields in a tree that holds other such files, or none. -/
structure Isolated (request : LoadRequest) (names : List String) (first second : Tree)
    (roster other : Roster) : Prop where
  agents : other.agents = roster.agents
  plans : ∀ (target : Target) (locale : Locale),
    target.plan locale other.agents = target.plan locale roster.agents
  /-- The files under other names are skipped alike. -/
  skipped : other.skipped.filter (·.1 ∉ names) = roster.skipped.filter (·.1 ∉ names)
  /-- The skipped files stand in the order of the bytes of the names, each name once. -/
  sorted : (other.skipped.map (·.1)).Pairwise fun earlier later =>
    Text.bytesOf earlier < Text.bytesOf later
  /-- The files under the names are skipped where they are considered. -/
  failed : ∀ file ∈ names, ∀ reason, (file, reason) ∈ other.skipped ↔
    request.Considers second file ∧ request.Fails second file reason
  /-- One file that is added adds one entry, at the place of its name. -/
  added : ∀ file, names = [file] → ¬ request.Considers first file →
    request.Considers second file → ∃ before reason after,
      roster.skipped = before ++ after ∧ other.skipped = before ++ (file, reason) :: after ∧
      request.Fails second file reason ∧
      (∀ entry ∈ before, Text.bytesOf entry.1 < Text.bytesOf file) ∧
      ∀ entry ∈ after, Text.bytesOf file < Text.bytesOf entry.1

/-- In a list with strictly ordered keys, leaving out one key leaves out one entry. -/
theorem exists_append_of_filter_ne {β : Type} {entries others : List (String × β)} {value : β}
    (sorted : (entries.map (·.1)).Pairwise fun earlier later =>
      Text.bytesOf earlier < Text.bytesOf later)
    (member : (file, value) ∈ entries) (rest : entries.filter (·.1 ∉ [file]) = others) :
    ∃ before after, others = before ++ after ∧ entries = before ++ (file, value) :: after ∧
      (∀ entry ∈ before, Text.bytesOf entry.1 < Text.bytesOf file) ∧
      ∀ entry ∈ after, Text.bytesOf file < Text.bytesOf entry.1 := by
  obtain ⟨before, after, rfl⟩ := List.append_of_mem member
  obtain ⟨_, behind, across⟩ := List.pairwise_append.mp (List.pairwise_map.mp sorted)
  have smaller : ∀ entry ∈ before, Text.bytesOf entry.1 < Text.bytesOf file :=
    fun entry inside => across entry inside (file, value) List.mem_cons_self
  have larger : ∀ entry ∈ after, Text.bytesOf file < Text.bytesOf entry.1 :=
    (List.pairwise_cons.mp behind).1
  refine ⟨before, after, ?_, rfl, smaller, larger⟩
  rw [← rest, List.filter_append, List.filter_cons_of_neg (by simp), List.filter_eq_self.mpr,
    List.filter_eq_self.mpr]
  · intro entry inside
    have apart : entry.1 ≠ file := fun same => List.lt_irrefl _ (same ▸ larger entry inside)
    simpa using apart
  · intro entry inside
    have apart : entry.1 ≠ file := fun same => List.lt_irrefl _ (same ▸ smaller entry inside)
    simpa using apart

section Files

variable {files files' : List String}

/-- The rosters of two trees without the names in which files fail. -/
theorem filter_ofFiles_of_alikeBut (alike : request.AlikeBut names first second)
    (sorted : files.Pairwise (· < ·)) (sorted' : files'.Pairwise (· < ·))
    (considered : ∀ file, file ∈ files ↔ request.Considers first file)
    (considered' : ∀ file, file ∈ files' ↔ request.Considers second file)
    (fails : ∀ file ∈ files, file ∈ names → ∃ reason, request.agentOf first file = .error reason)
    (fails' : ∀ file ∈ files', file ∈ names →
      ∃ reason, request.agentOf second file = .error reason) :
    (Roster.ofFiles (request.agentOf second) files').filter (·.1 ∉ names) =
      (Roster.ofFiles (request.agentOf first) files).filter (·.1 ∉ names) := by
  rw [Roster.filter_ofFiles fails', Roster.filter_ofFiles fails]
  have same : files'.filter (· ∉ names) = files.filter (· ∉ names) := by
    refine eq_of_pairwise_lt (sorted'.filter _) (sorted.filter _) fun name => ?_
    rw [List.mem_filter, List.mem_filter, considered, considered']
    exact and_congr_left fun other => alike.considers (of_decide_eq_true other)
  rw [same]
  refine Roster.ofFiles_congr fun file member => ?_
  obtain ⟨inside, other⟩ := List.mem_filter.mp member
  exact alike.agentOf (isName_of_considers ((considered file).mp inside)) (of_decide_eq_true other)

/-- A file that fails is skipped for the reason for which it fails. -/
theorem mem_skipped_iff_of_fails {file : String}
    (considered : ∀ file, file ∈ files ↔ request.Considers first file)
    (fails : file ∈ files → ∃ reason, request.agentOf first file = .error reason)
    (reason : SkipReason) :
    (file, reason) ∈ (Roster.ofFiles (request.agentOf first) files).skipped ↔
      request.Considers first file ∧ request.Fails first file reason := by
  rw [Roster.mem_skipped_iff, fails_iff, ← considered]
  constructor
  · intro entry
    obtain ⟨before, after, rfl, accepted⟩ := Roster.mem_ofFiles_iff.mp entry
    obtain ⟨found, failed⟩ := fails (by simp)
    rw [failed] at accepted ⊢
    exact ⟨by simp, by rw [LoadOutcome.skipped.inj accepted]⟩
  · rintro ⟨inside, failed⟩
    refine (Roster.skipped_mem_ofFiles_iff ?_).mpr ⟨inside, failed⟩
    rintro slug holder rfl
    exact agentOf_ne_slugTaken slug holder failed

/-- A file that is not there is not among the skipped ones. -/
theorem filter_skipped_of_absent {file : String}
    (considered : ∀ file, file ∈ files ↔ request.Considers first file)
    (absent : ¬ request.Considers first file) :
    (Roster.ofFiles (request.agentOf first) files).skipped.filter (·.1 ∉ [file]) =
      (Roster.ofFiles (request.agentOf first) files).skipped := by
  refine List.filter_eq_self.mpr fun entry inside => ?_
  have known := (Roster.skipped_sublist _).subset (List.mem_map_of_mem (f := (·.1)) inside)
  rw [Roster.map_fst_ofFiles, considered] at known
  have apart : entry.1 ≠ file := fun same => absent (same ▸ known)
  simpa using apart

theorem isolated_ofFiles (alike : request.AlikeBut names first second)
    (sorted : files.Pairwise (· < ·)) (sorted' : files'.Pairwise (· < ·))
    (considered : ∀ file, file ∈ files ↔ request.Considers first file)
    (considered' : ∀ file, file ∈ files' ↔ request.Considers second file)
    (fails : ∀ file ∈ files, file ∈ names → ∃ reason, request.agentOf first file = .error reason)
    (fails' : ∀ file ∈ files', file ∈ names →
      ∃ reason, request.agentOf second file = .error reason) :
    request.Isolated names first second (Roster.ofFiles (request.agentOf first) files)
      (Roster.ofFiles (request.agentOf second) files') := by
  have rest := filter_ofFiles_of_alikeBut alike sorted sorted' considered considered' fails fails'
  have agents := congrArg Roster.agents rest
  rw [Roster.agents_filter (Roster.skips_ofFiles fails),
    Roster.agents_filter (Roster.skips_ofFiles fails')] at agents
  have skipped := congrArg Roster.skipped rest
  rw [Roster.skipped_filter, Roster.skipped_filter] at skipped
  have order := (reports_ofFiles sorted' considered').sorted.sublist
    (Roster.skipped_sublist (Roster.ofFiles (request.agentOf second) files'))
  have failed : ∀ file ∈ names, ∀ reason,
      (file, reason) ∈ (Roster.ofFiles (request.agentOf second) files').skipped ↔
        request.Considers second file ∧ request.Fails second file reason :=
    fun file member => mem_skipped_iff_of_fails considered' fun inside => fails' file inside member
  refine ⟨agents, fun target locale => by rw [agents], skipped, order, failed, ?_⟩
  rintro file rfl absent present
  obtain ⟨reason, failing⟩ := fails' file ((considered' file).mpr present) List.mem_cons_self
  have member := (failed file List.mem_cons_self reason).mpr ⟨present, fails_iff.mpr failing⟩
  -- Without the file, nothing is left out of the first roster.
  have whole := filter_skipped_of_absent considered absent
  obtain ⟨before, after, less, more, smaller, larger⟩ :=
    exists_append_of_filter_ne order member (skipped.trans whole)
  exact ⟨before, reason, after, less, more, fails_iff.mpr failing, smaller, larger⟩

end Files

/-- Definition files that fail change neither the agents and what is planned for them nor
how the other files are skipped. -/
theorem load_of_broken (alike : request.AlikeBut names first second)
    (broken : ∀ file ∈ names, request.Considers first file →
      ∃ reason, request.Fails first file reason)
    (broken' : ∀ file ∈ names, request.Considers second file →
      ∃ reason, request.Fails second file reason) :
    (∃ roster other, request.load first = .ok roster ∧ request.load second = .ok other ∧
        request.Isolated names first second roster other) ∨
      ∃ path, request.defaults = .directory path ∧
        request.load first = .error (.definitionsNotFound path) ∧
        request.load second = .error (.definitionsNotFound path) := by
  rcases files_spec request first with
    ⟨files, listed, sorted, considered⟩ | ⟨path, source, missing, failed⟩
  · rcases files_spec request second with
      ⟨files', listed', sorted', considered'⟩ | ⟨path, source, missing, failed⟩
    · refine .inl ⟨_, _, load_of_files listed, load_of_files listed',
        isolated_ofFiles alike sorted sorted' considered considered' ?_ ?_⟩
      · intro file inside member
        obtain ⟨reason, fails⟩ := broken file member ((considered file).mp inside)
        exact ⟨reason, fails_iff.mp fails⟩
      · intro file inside member
        obtain ⟨reason, fails⟩ := broken' file member ((considered' file).mp inside)
        exact ⟨reason, fails_iff.mp fails⟩
    · rw [alike.isDirectory (.inl source)] at missing
      rw [files_of_missing source missing] at listed
      contradiction
  · have missing' : second.isDirectory path = false := by
      rw [alike.isDirectory (.inl source), missing]
    refine .inr ⟨path, source, by rw [load, failed]; rfl, ?_⟩
    rw [load, files_of_missing source missing']
    rfl

/-! ## A broken file with a slug of another one -/

/-- The tree of the twins with a file that would come first and have the slug of one of
them, if it were no malformed YAML. -/
def brokenTree : Tree where
  entries := (["d", "A-B.yaml"], .file (.text "[")) :: Target.twinTree.entries
  workingDirectory := []

theorem fails_brokenTree :
    ∃ reason, Target.twinRequest.Fails brokenTree "A-B.yaml" reason := by
  have refused : ∃ error, Yaml.Value.ofText "[" = .error error := by
    cbv
    exact ⟨_, rfl⟩
  obtain ⟨error, refused⟩ := refused
  have read : Target.twinRequest.readDefinition brokenTree "A-B.yaml" = .ok ("[", .default) := by
    rfl
  exact ⟨_, .malformed read refused⟩

theorem alikeBut_brokenTree :
    Target.twinRequest.AlikeBut ["A-B.yaml"] Target.twinTree brokenTree := by
  have named : ∀ path, Target.twinRequest.Names path → path = "d" := by
    rintro path (source | given)
    · exact (DefinitionSource.directory.inj source).symm
    · contradiction
  constructor
  · intro path names
    rw [named path names]
    decide
  · intro path location name names reached other
    have apart : (location ++ [name] == ["d", "A-B.yaml"]) = false := by
      rw [beq_eq_false_iff_ne]
      intro same
      have last := congrArg List.getLast? same
      exact other (by simpa using last)
    simp [Tree.find?, brokenTree, List.lookup_cons, apart]

/-- The broken file takes no slug from the twins, and one entry tells of it. -/
theorem load_brokenTree :
    ∃ roster other before reason after, Target.twinRequest.load Target.twinTree = .ok roster ∧
      Target.twinRequest.load brokenTree = .ok other ∧ other.agents = Target.twins ∧
      roster.skipped = before ++ after ∧ other.skipped = before ++ ("A-B.yaml", reason) :: after ∧
      Target.twinRequest.Fails brokenTree "A-B.yaml" reason := by
  obtain ⟨roster, loaded, agents⟩ := Target.load_twinTree
  have stem : ∃ stem, stem ≠ "" ∧ ("A-B.yaml" = stem ++ ".yaml" ∨ "A-B.yaml" = stem ++ ".yml") :=
    ⟨"A-B", by decide, .inl rfl⟩
  have absent : ¬ Target.twinRequest.Considers Target.twinTree "A-B.yaml" := by
    rintro ⟨_, location, content, reached, found⟩
    obtain rfl : ["d"] = location := Except.ok.inj reached
    contradiction
  have present : Target.twinRequest.Considers brokenTree "A-B.yaml" :=
    ⟨stem, ["d"], .text "[", by rfl, by rfl⟩
  have broken : ∀ file ∈ ["A-B.yaml"], Target.twinRequest.Considers Target.twinTree file →
      ∃ reason, Target.twinRequest.Fails Target.twinTree file reason := by
    intro file member considered
    rw [List.mem_singleton.mp member] at considered
    exact absurd considered absent
  have broken' : ∀ file ∈ ["A-B.yaml"], Target.twinRequest.Considers brokenTree file →
      ∃ reason, Target.twinRequest.Fails brokenTree file reason := by
    intro file member _
    rw [List.mem_singleton.mp member]
    exact fails_brokenTree
  rcases load_of_broken alikeBut_brokenTree broken broken' with
    ⟨lone, other, known, loaded', isolated⟩ | ⟨path, _, failed, _⟩
  · obtain rfl := Except.ok.inj (loaded.symm.trans known)
    obtain ⟨before, reason, after, less, more, fails, _⟩ := isolated.added _ rfl absent present
    exact ⟨roster, other, before, reason, after, loaded, loaded', isolated.agents.trans agents,
      less, more, fails⟩
  · rw [loaded] at failed
    contradiction

end LoadRequest

end AgentKit
