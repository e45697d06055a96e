/-
# What loading yields

Loading considers exactly the definition files of the default source, in the order of
the bytes of their names. Every one of them yields an agent or is skipped, and it is
skipped for its slug exactly if an earlier file has yielded an agent with that slug: a
file that fails reserves nothing.

Nothing else than the absence of the directory makes loading fail, and the order in
which a directory lists its entries does not matter.
-/

import AgentKit.Proofs.Definition.FileName
import AgentKit.Proofs.Files.Listing
import AgentKit.Proofs.Roster.Acceptance
import AgentKit.Proofs.Text.ByteOrder

namespace AgentKit.LoadRequest

open Files (Tree)

variable {request : LoadRequest} {tree other : Tree} {file : String} {agent : Agent}

/-! ## One file -/

/-- A file yields an agent if it is read, parsed and validated. -/
theorem agentOf_eq_ok_iff :
    request.agentOf tree file = .ok agent ↔
      ∃ text source value definition, request.readDefinition tree file = .ok (text, source) ∧
        Yaml.Value.ofText text = .ok value ∧ Definition.ofValue value = .ok definition ∧
        agent = .ofDefinition definition ((Definition.stem? file).getD file) source
          (RuleText.compose definition.rules request.locale.languageRule request.globalRules) := by
  unfold agentOf compose
  cases read : request.readDefinition tree file with
  | error fault => simp
  | ok found =>
      obtain ⟨text, source⟩ := found
      cases parsed : Yaml.Value.ofText text with
      | error error => simp [parsed]
      | ok value =>
          cases valid : Definition.ofValue value with
          | error issues => simp [parsed, valid]
          | ok definition => simp [parsed, valid, eq_comm]

/-- A file by itself is never skipped for its slug. -/
theorem agentOf_ne_slugTaken (slug first : String) :
    request.agentOf tree file ≠ .error (.slugTaken slug first) := by
  unfold agentOf compose
  split
  · simp
  · split
    · simp
    · split <;> simp

/-! ## The files -/

/-- A definition file of the default source. -/
def Considers (request : LoadRequest) (tree : Tree) (file : String) : Prop :=
  (∃ stem, stem ≠ "" ∧ (file = stem ++ ".yaml" ∨ file = stem ++ ".yml")) ∧
    match request.defaults with
    | .bundled => file ∈ Definition.bundled.map (·.name)
    | .directory path => ∃ location content, tree.reach path = .ok location ∧
        tree.find? (location ++ [file]) = some (.file content)

theorem isSome_stem?_iff :
    (Definition.stem? file).isSome ↔
      ∃ stem, stem ≠ "" ∧ (file = stem ++ ".yaml" ∨ file = stem ++ ".yml") := by
  rw [Option.isSome_iff_exists]
  exact exists_congr fun stem => Definition.stem?_eq_some_iff

theorem nodup_bundled : (Definition.bundled.map (·.name)).Nodup := by
  decide

theorem isSome_stem?_of_bundled :
    ∀ file ∈ Definition.bundled.map (·.name), (Definition.stem? file).isSome := by
  decide

/-- The default source names its definition files, each once, unless it is a directory
that is not there. -/
theorem unsortedFiles_spec (request : LoadRequest) (tree : Tree) :
    (∃ names, request.unsortedFiles tree = .ok names ∧ names.Nodup ∧
        ∀ file, file ∈ names ↔ request.Considers tree file) ∨
      ∃ path, request.defaults = .directory path ∧ tree.isDirectory path = false ∧
        request.unsortedFiles tree = .error (.definitionsNotFound path) := by
  cases source : request.defaults with
  | bundled =>
      left
      refine ⟨_, by rw [unsortedFiles, source], nodup_bundled, fun file => ?_⟩
      rw [Considers, source]
      exact ⟨fun member => ⟨isSome_stem?_iff.mp (isSome_stem?_of_bundled file member), member⟩,
        And.right⟩
  | directory path =>
      by_cases there : tree.isDirectory path
      · left
        obtain ⟨location, reached, listed⟩ := Tree.fileNames_of_isDirectory there
        refine ⟨(tree.filesIn location).filter fun name => (Definition.stem? name).isSome, ?_,
          (Tree.nodup_filesIn tree location).filter _, fun file => ?_⟩
        · rw [unsortedFiles, source]
          simp [there, listed]
        · rw [Considers, source, List.mem_filter, Tree.mem_filesIn_iff, isSome_stem?_iff, and_comm]
          refine and_congr_right fun _ => ⟨fun ⟨content, found⟩ => ?_, ?_⟩
          · exact ⟨location, content, reached, found⟩
          · rintro ⟨also, content, reached', found⟩
            rw [reached] at reached'
            rw [Except.ok.inj reached']
            exact ⟨content, found⟩
      · right
        refine ⟨path, rfl, by simpa using there, ?_⟩
        rw [unsortedFiles, source]
        simp [there]

theorem pairwise_mergeSort_lt {names : List String} (distinct : names.Nodup) :
    (names.mergeSort fun a b => a ≤ b).Pairwise (· < ·) := by
  have ordered : (names.mergeSort fun a b => a ≤ b).Pairwise fun a b => decide (a ≤ b) = true :=
    List.pairwise_mergeSort
      (fun a b c first second => by
        simpa using String.le_trans (of_decide_eq_true first) (of_decide_eq_true second))
      (fun a b => by simpa using String.le_total a b) names
  have apart := (List.mergeSort_perm names fun a b => a ≤ b).nodup_iff.mpr distinct
  refine ordered.imp₂ (fun a b le different => ?_) apart
  exact lt_of_le_of_ne (of_decide_eq_true le) different

/-- Names in strict order are determined by which they are. -/
theorem eq_of_pairwise_lt {names others : List String} (sorted : names.Pairwise (· < ·))
    (also : others.Pairwise (· < ·)) (same : ∀ name, name ∈ names ↔ name ∈ others) :
    names = others := by
  refine List.Perm.eq_of_pairwise (fun a b _ _ less larger => ?_) sorted also ?_
  · exact absurd larger (String.lt_asymm less)
  · rw [List.perm_ext_iff_of_nodup (sorted.imp (String.ne_of_lt ·)) (also.imp (String.ne_of_lt ·))]
    exact same

/-! ## Loading -/

/-- The files of the default source in the order of their names, or the absence of the
directory. -/
theorem files_spec (request : LoadRequest) (tree : Tree) :
    (∃ names, request.files tree = .ok names ∧ names.Pairwise (· < ·) ∧
        ∀ file, file ∈ names ↔ request.Considers tree file) ∨
      ∃ path, request.defaults = .directory path ∧ tree.isDirectory path = false ∧
        request.files tree = .error (.definitionsNotFound path) := by
  rcases unsortedFiles_spec request tree with
    ⟨names, listed, distinct, considered⟩ | ⟨path, source, missing, failed⟩
  · left
    refine ⟨names.mergeSort fun a b => a ≤ b, by rw [files, listed]; rfl,
      pairwise_mergeSort_lt distinct, fun file => ?_⟩
    rw [List.mem_mergeSort]
    exact considered file
  · exact .inr ⟨path, source, missing, by rw [files, failed]; rfl⟩

theorem files_of_missing {path : Path} (source : request.defaults = .directory path)
    (missing : tree.isDirectory path = false) :
    request.files tree = .error (.definitionsNotFound path) := by
  rw [files, unsortedFiles, source]
  simp only [missing]
  rfl

theorem load_of_files {names : List String} (listed : request.files tree = .ok names) :
    request.load tree = .ok (Roster.ofFiles (request.agentOf tree) names) := by
  rw [load, listed]
  rfl

/-- What a roster says about the definition files that were considered. -/
structure Reports (request : LoadRequest) (tree : Tree) (roster : Roster) : Prop where
  /-- There is an entry for exactly the definition files of the default source. -/
  considered : ∀ file, file ∈ roster.map (·.1) ↔ request.Considers tree file
  /-- The entries stand in the order of the bytes of the names, each name once. -/
  sorted : (roster.map (·.1)).Pairwise fun first second => Text.bytesOf first < Text.bytesOf second
  /-- Every file has yielded an agent or is skipped, and both stand in that order. -/
  partition : ∃ files : List String, files.Sublist (roster.map (·.1)) ∧
    List.Forall₂ (fun file agent => request.agentOf tree file = .ok agent) files roster.agents ∧
    (roster.skipped.map (·.1)).Sublist (roster.map (·.1)) ∧
    (files ++ roster.skipped.map (·.1)).Perm (roster.map (·.1))
  distinct : (roster.agents.map Agent.slug).Nodup
  /-- A file is skipped for its slug exactly if it is read, parsed and validated, and a
  file with a smaller name has yielded an agent with the slug. -/
  taken : ∀ file slug first, (file, .slugTaken slug first) ∈ roster.skipped ↔
    request.Considers tree file ∧
      (∃ text source value definition, request.readDefinition tree file = .ok (text, source) ∧
        Yaml.Value.ofText text = .ok value ∧ Definition.ofValue value = .ok definition ∧
        slugOf ((Definition.stem? file).getD file) = slug) ∧
      Text.bytesOf first < Text.bytesOf file ∧
      ∃ agent, (first, .loaded agent) ∈ roster ∧ agent.slug = slug
  /-- A file is skipped for another reason exactly if it fails by itself. -/
  failed : ∀ file reason, (∀ slug first, reason ≠ .slugTaken slug first) →
    ((file, reason) ∈ roster.skipped ↔
      request.Considers tree file ∧ request.agentOf tree file = .error reason)

theorem reports_ofFiles {names : List String} (sorted : names.Pairwise (· < ·))
    (considered : ∀ file, file ∈ names ↔ request.Considers tree file) :
    request.Reports tree (Roster.ofFiles (request.agentOf tree) names) := by
  have files := Roster.map_fst_ofFiles (request.agentOf tree) names
  constructor
  · rwa [files]
  · rw [files]
    exact sorted.imp Text.bytesOf_lt_iff.mpr
  · obtain ⟨loaded, ordered, yields, others, whole⟩ :=
      Roster.exists_partition (Roster.ofFiles (request.agentOf tree) names)
    refine ⟨loaded, ordered, yields.imp fun file agent member => ?_, others, whole⟩
    obtain ⟨_, _, _, accepted⟩ := Roster.mem_ofFiles_iff.mp member
    exact (Roster.accept_eq_loaded_iff.mp accepted.symm).1
  · exact Roster.nodup_slugs_ofFiles _ _
  · intro file slug first
    rw [Roster.mem_skipped_iff, Roster.slugTaken_mem_ofFiles_iff sorted agentOf_ne_slugTaken,
      considered, Text.bytesOf_lt_iff]
    refine and_congr_right fun _ => and_congr_left fun _ => ?_
    constructor
    · rintro ⟨agent, yields, rfl⟩
      obtain ⟨text, source, value, definition, read, parsed, valid, rfl⟩ :=
        agentOf_eq_ok_iff.mp yields
      exact ⟨text, source, value, definition, read, parsed, valid, rfl⟩
    · rintro ⟨text, source, value, definition, read, parsed, valid, rfl⟩
      exact ⟨_, agentOf_eq_ok_iff.mpr ⟨text, source, value, definition, read, parsed, valid, rfl⟩,
        rfl⟩
  · intro file reason other
    rw [Roster.mem_skipped_iff, Roster.skipped_mem_ofFiles_iff other, considered]

/-- An agent that was loaded for a file is what the file yields by itself. -/
theorem of_mem_load {roster : Roster} (loaded : request.load tree = .ok roster)
    (member : (file, .loaded agent) ∈ roster) :
    request.Considers tree file ∧ request.agentOf tree file = .ok agent := by
  rcases files_spec request tree with ⟨names, listed, _, considered⟩ | ⟨_, _, _, failed⟩
  · rw [load_of_files listed] at loaded
    obtain rfl := Except.ok.inj loaded
    obtain ⟨before, after, whole, accepted⟩ := Roster.mem_ofFiles_iff.mp member
    have known := (considered file).mp (by rw [whole]; simp)
    exact ⟨known, (Roster.accept_eq_loaded_iff.mp accepted.symm).1⟩
  · rw [load, failed] at loaded
    contradiction

/-! ## Stems -/

/-- The name of a definition file is one that a directory can hold. -/
theorem isName_of_considers (considered : request.Considers tree file) : Files.isName file := by
  have bundled : ∀ file ∈ Definition.bundled.map (·.name), Files.isName file := by decide
  obtain ⟨_, member⟩ := considered
  cases source : request.defaults with
  | bundled =>
      rw [source] at member
      exact bundled file member
  | directory path =>
      rw [source] at member
      obtain ⟨location, content, _, found⟩ := member
      exact Tree.isName_of_find? found file (by simp)

theorem slash_notMem_of_considers (considered : request.Considers tree file) :
    '/' ∉ file.toList := by
  have proper := isName_of_considers considered
  simp [Files.isName] at proper
  exact proper.1.2

/-- The stem of a loaded agent has no slash. -/
theorem slash_notMem_stem {roster : Roster} (loaded : request.load tree = .ok roster)
    (member : agent ∈ roster.agents) : '/' ∉ agent.stem.toList := by
  obtain ⟨file, entry⟩ := Roster.mem_agents_iff.mp member
  obtain ⟨known, yields⟩ := of_mem_load loaded entry
  obtain ⟨stem, found⟩ := Option.isSome_iff_exists.mp (isSome_stem?_iff.mpr known.1)
  obtain ⟨_, _, _, definition, _, _, _, rfl⟩ := agentOf_eq_ok_iff.mp yields
  have plain := slash_notMem_of_considers known
  rw [found, Option.getD_some, Agent.ofDefinition]
  rcases (Definition.stem?_eq_some_iff.mp found).2 with rfl | rfl <;>
    exact fun inside => plain (by simp [inside])

theorem nodup_slugs_of_load {roster : Roster} (loaded : request.load tree = .ok roster) :
    (roster.agents.map Agent.slug).Nodup := by
  rcases files_spec request tree with ⟨names, listed, _, _⟩ | ⟨_, _, _, failed⟩
  · rw [load_of_files listed] at loaded
    obtain rfl := Except.ok.inj loaded
    exact Roster.nodup_slugs_ofFiles _ _
  · rw [load, failed] at loaded
    contradiction

/-! ## Trees that hold the same -/

theorem readDefinition_of_alike (alike : Tree.Alike tree other) :
    request.readDefinition other = request.readDefinition tree := by
  funext file
  simp only [readDefinition, presentOverrides, defaultText, alike.isDirectory, alike.isThere,
    alike.readText]

theorem agentOf_of_alike (alike : Tree.Alike tree other) :
    request.agentOf other = request.agentOf tree := by
  funext file
  rw [agentOf, agentOf, readDefinition_of_alike alike]

theorem considers_of_alike (alike : Tree.Alike tree other) :
    request.Considers other file ↔ request.Considers tree file := by
  simp only [Considers, alike.reach, alike.found]

/-- Loading does not depend on the order in which a directory lists its entries. -/
theorem load_of_alike (request : LoadRequest) (alike : Tree.Alike tree other) :
    request.load other = request.load tree := by
  rcases files_spec request tree with
    ⟨names, listed, sorted, considered⟩ | ⟨path, source, missing, failed⟩ <;>
    rcases files_spec request other with
      ⟨names', listed', sorted', considered'⟩ | ⟨path', source', missing', failed'⟩
  · have same : names' = names := by
      refine eq_of_pairwise_lt sorted' sorted fun name => ?_
      rw [considered, considered', considers_of_alike alike]
    rw [load_of_files listed, load_of_files listed', same, agentOf_of_alike alike]
  · rw [alike.isDirectory] at missing'
    rw [files_of_missing source' missing'] at listed
    contradiction
  · rw [← alike.isDirectory] at missing
    rw [files_of_missing source missing] at listed'
    contradiction
  · rw [source] at source'
    obtain rfl := DefinitionSource.directory.inj source'
    rw [load, load, failed, failed']
    rfl

/-- Loading yields a roster that reports on the definition files of the default source,
unless that is a directory that is not there. -/
theorem load_spec (request : LoadRequest) (tree : Tree) :
    (∃ roster, request.load tree = .ok roster ∧ request.Reports tree roster ∧
        ∀ other, Tree.Alike tree other → request.load other = .ok roster) ∨
      ∃ path, request.defaults = .directory path ∧ tree.isDirectory path = false ∧
        request.load tree = .error (.definitionsNotFound path) := by
  rcases files_spec request tree with
    ⟨names, listed, sorted, considered⟩ | ⟨path, source, missing, failed⟩
  · left
    refine ⟨_, load_of_files listed, reports_ofFiles sorted considered, fun other alike => ?_⟩
    rw [load_of_alike request alike, load_of_files listed]
  · exact .inr ⟨path, source, missing, by rw [load, failed]; rfl⟩

end AgentKit.LoadRequest
