/-
# Which files yield agents

Files are accepted one after the other, so what a file yields depends on the files
before it and on nothing after it. After every file the slugs of the agents are
distinct: that is the invariant, and it makes the file that holds a slug unique.

Nothing is assumed about the order of the files or about their names.
-/

import AgentKit.Roster
import Mathlib.Data.List.Induction
import Mathlib.Data.List.Nodup

namespace AgentKit.Roster

variable {roster : Roster} {results : List (String × Except SkipReason Agent)}
  {file first slug : String} {agent : Agent} {reason : SkipReason}

/-! ## Agents and skipped files -/

@[simp]
theorem agents_append (first second : Roster) :
    agents (first ++ second) = agents first ++ agents second :=
  List.filterMap_append

theorem mem_agents_iff : agent ∈ roster.agents ↔ ∃ file, (file, .loaded agent) ∈ roster := by
  rw [agents, List.mem_filterMap]
  constructor
  · rintro ⟨⟨file, outcome⟩, member, shape⟩
    cases outcome with
    | loaded also => exact ⟨file, Option.some.inj shape ▸ member⟩
    | skipped reason => contradiction
  · rintro ⟨file, member⟩
    exact ⟨(file, .loaded agent), member, rfl⟩

theorem mem_skipped_iff : (file, reason) ∈ roster.skipped ↔ (file, .skipped reason) ∈ roster := by
  rw [skipped, List.mem_filterMap]
  constructor
  · rintro ⟨⟨also, outcome⟩, member, shape⟩
    cases outcome with
    | loaded agent => contradiction
    | skipped found =>
        obtain ⟨rfl, rfl⟩ : also = file ∧ found = reason := by simpa using shape
        exact member
  · intro member
    exact ⟨(file, .skipped reason), member, rfl⟩

/-- The files of a roster fall into those that have yielded the agents and those that
are skipped, both in the order of the roster. -/
theorem exists_partition (roster : Roster) :
    ∃ files : List String, files.Sublist (roster.map (·.1)) ∧
      List.Forall₂ (fun file agent => (file, .loaded agent) ∈ roster) files roster.agents ∧
      (roster.skipped.map (·.1)).Sublist (roster.map (·.1)) ∧
      (files ++ roster.skipped.map (·.1)).Perm (roster.map (·.1)) := by
  induction roster with
  | nil => exact ⟨[], .refl _, .nil, .refl _, .refl _⟩
  | cons entry later ih =>
      obtain ⟨name, outcome⟩ := entry
      obtain ⟨files, ordered, yields, others, whole⟩ := ih
      have still : List.Forall₂ (fun file agent => (file, .loaded agent) ∈ (name, outcome) :: later)
          files (agents later) :=
        yields.imp fun _ _ member => List.mem_cons_of_mem _ member
      cases outcome with
      | loaded agent =>
          exact ⟨name :: files, ordered.cons_cons name, .cons List.mem_cons_self still,
            others.cons name, whole.cons name⟩
      | skipped reason =>
          exact ⟨files, ordered.cons name, still, others.cons_cons name,
            List.perm_middle.trans (whole.cons name)⟩

/-- The skipped files of a roster stand in the order of the roster. -/
theorem skipped_sublist (roster : Roster) :
    (roster.skipped.map (·.1)).Sublist (roster.map (·.1)) := by
  obtain ⟨_, _, _, ordered, _⟩ := exists_partition roster
  exact ordered

/-! ## One file -/

/-- A file that holds a slug has yielded an agent with it. -/
theorem of_fileOf?_eq_some (found : roster.fileOf? slug = some first) :
    ∃ agent, (first, .loaded agent) ∈ roster ∧ agent.slug = slug := by
  obtain ⟨⟨file, outcome⟩, search, rfl⟩ := Option.map_eq_some_iff.mp found
  have holds := List.find?_some search
  cases outcome with
  | loaded agent => exact ⟨agent, List.mem_of_find?_eq_some search, by simpa using holds⟩
  | skipped reason => contradiction

/-- No file holds a slug that no agent has. -/
theorem fileOf?_eq_none_iff : roster.fileOf? slug = none ↔ slug ∉ roster.agents.map Agent.slug := by
  rw [fileOf?, Option.map_eq_none_iff, List.find?_eq_none]
  constructor
  · intro none inside
    obtain ⟨agent, member, rfl⟩ := List.mem_map.mp inside
    obtain ⟨file, entry⟩ := mem_agents_iff.mp member
    exact none _ entry (by simp)
  · rintro absent ⟨file, outcome⟩ member holds
    cases outcome with
    | loaded agent =>
        refine absent (List.mem_map.mpr ⟨agent, mem_agents_iff.mpr ⟨file, member⟩, ?_⟩)
        simpa using holds
    | skipped reason => contradiction

theorem slug_mem_of_mem (member : (file, .loaded agent) ∈ roster) :
    agent.slug ∈ roster.agents.map Agent.slug :=
  List.mem_map_of_mem (mem_agents_iff.mpr ⟨file, member⟩)

/-- Where slugs are distinct, only one file has yielded an agent with a given slug. -/
theorem eq_of_slug_eq (distinct : (roster.agents.map Agent.slug).Nodup) {other : Agent}
    (member : (file, .loaded agent) ∈ roster) (also : (first, .loaded other) ∈ roster)
    (same : agent.slug = other.slug) : file = first ∧ agent = other := by
  induction roster with
  | nil => cases member
  | cons entry later ih =>
      obtain ⟨name, outcome⟩ := entry
      cases outcome with
      | skipped reason =>
          have inside : (file, .loaded agent) ∈ later := by simpa using member
          have inside' : (first, .loaded other) ∈ later := by simpa using also
          exact ih distinct inside inside'
      | loaded holder =>
          have fresh : holder.slug ∉ (agents later).map Agent.slug ∧
              ((agents later).map Agent.slug).Nodup := List.nodup_cons.mp distinct
          rcases List.mem_cons.mp member with here | inside <;>
            rcases List.mem_cons.mp also with here' | inside'
          · simp_all
          · obtain rfl : agent = holder := by simpa using (Prod.ext_iff.mp here).2
            exact absurd (same ▸ slug_mem_of_mem inside') fresh.1
          · obtain rfl : other = holder := by simpa using (Prod.ext_iff.mp here').2
            exact absurd (same ▸ slug_mem_of_mem inside) fresh.1
          · exact ih fresh.2 inside inside'

/-- Where slugs are distinct, the file that holds a slug is the one that has yielded an
agent with it. -/
theorem fileOf?_eq_some_iff (distinct : (roster.agents.map Agent.slug).Nodup) :
    roster.fileOf? slug = some first ↔
      ∃ agent, (first, .loaded agent) ∈ roster ∧ agent.slug = slug := by
  refine ⟨of_fileOf?_eq_some, ?_⟩
  rintro ⟨agent, member, rfl⟩
  cases found : roster.fileOf? agent.slug with
  | none => exact absurd (slug_mem_of_mem member) (fileOf?_eq_none_iff.mp found)
  | some file =>
      obtain ⟨other, also, same⟩ := of_fileOf?_eq_some found
      rw [(eq_of_slug_eq distinct also member same).1]

/-- A file is accepted after a roster unless it has failed by itself or its slug is
held. -/
theorem accept_eq_loaded_iff {result : Except SkipReason Agent} :
    roster.accept result = .loaded agent ↔
      result = .ok agent ∧ agent.slug ∉ roster.agents.map Agent.slug := by
  cases result with
  | error reason => simp [accept]
  | ok also =>
      rw [accept]
      cases found : roster.fileOf? also.slug with
      | none =>
          have free := fileOf?_eq_none_iff.mp found
          constructor
          · intro same
            obtain rfl := LoadOutcome.loaded.inj same
            exact ⟨rfl, free⟩
          · rintro ⟨same, _⟩
            rw [Except.ok.inj same]
      | some first =>
          obtain ⟨holder, member, same⟩ := of_fileOf?_eq_some found
          constructor
          · intro wrong
            contradiction
          · rintro ⟨this, free⟩
            obtain rfl := Except.ok.inj this
            exact absurd (same ▸ slug_mem_of_mem member) free

/-- A file is skipped after a roster because it has failed by itself or because the
roster holds its slug. -/
theorem accept_eq_skipped_iff {result : Except SkipReason Agent} :
    roster.accept result = .skipped reason ↔
      result = .error reason ∨ ∃ agent first, result = .ok agent ∧
        roster.fileOf? agent.slug = some first ∧ reason = .slugTaken agent.slug first := by
  cases result with
  | error found => simp [accept]
  | ok agent =>
      rw [accept]
      cases found : roster.fileOf? agent.slug with
      | none => simp [found]
      | some first => simp [found, eq_comm]

/-! ## All files -/

theorem extend_append (roster : Roster) (first second : List (String × Except SkipReason Agent)) :
    roster.extend (first ++ second) = (roster.extend first).extend second := by
  induction first generalizing roster with
  | nil => rfl
  | cons result first ih =>
      obtain ⟨file, result⟩ := result
      rw [List.cons_append, extend, extend, ih]

/-- The last file is accepted after all others. -/
theorem extend_concat (roster : Roster) (file : String) (result : Except SkipReason Agent) :
    roster.extend (results ++ [(file, result)]) =
      roster.extend results ++ [(file, (roster.extend results).accept result)] := by
  rw [extend_append, extend, extend]

/-- There is one entry for every file, in the order of the files. -/
theorem map_fst_extend (roster : Roster) (results : List (String × Except SkipReason Agent)) :
    (roster.extend results).map (·.1) = roster.map (·.1) ++ results.map (·.1) := by
  induction results generalizing roster with
  | nil => simp [extend]
  | cons result results ih =>
      obtain ⟨file, result⟩ := result
      rw [extend, ih]
      simp

/-- No two agents come to have one slug. -/
theorem nodup_slugs_extend (distinct : (roster.agents.map Agent.slug).Nodup)
    (results : List (String × Except SkipReason Agent)) :
    ((roster.extend results).agents.map Agent.slug).Nodup := by
  induction results generalizing roster with
  | nil => exact distinct
  | cons result results ih =>
      obtain ⟨file, result⟩ := result
      apply ih
      cases outcome : roster.accept result with
      | loaded agent =>
          have free := (accept_eq_loaded_iff.mp outcome).2
          rw [agents_append, List.map_append]
          refine List.nodup_append.mpr ⟨distinct, List.nodup_singleton _, ?_⟩
          rintro slug member other last rfl
          rw [List.mem_singleton.mp last] at member
          exact free member
      | skipped reason =>
          rw [agents_append, List.map_append]
          simpa [agents] using distinct

/-- Every entry is what its file yields after the files before it. -/
theorem mem_extend_iff {outcome : LoadOutcome} :
    (file, outcome) ∈ roster.extend results ↔
      (file, outcome) ∈ roster ∨ ∃ before result after,
        results = before ++ (file, result) :: after ∧
          outcome = (roster.extend before).accept result := by
  induction results using List.reverseRecOn with
  | nil => simp [extend]
  | append_singleton results last ih =>
      obtain ⟨name, result⟩ := last
      rw [extend_concat, List.mem_append, ih, List.mem_singleton]
      constructor
      · rintro ((old | ⟨before, also, after, rfl, rfl⟩) | here)
        · exact .inl old
        · exact .inr ⟨before, also, after ++ [(name, result)], by simp, rfl⟩
        · rw [Prod.mk.injEq] at here
          obtain ⟨rfl, rfl⟩ := here
          exact .inr ⟨results, result, [], rfl, rfl⟩
      · rintro (old | ⟨before, also, after, whole, rfl⟩)
        · exact .inl (.inl old)
        · rcases List.eq_nil_or_concat after with rfl | ⟨shorter, final, rfl⟩
          · obtain ⟨rfl, same⟩ := List.append_inj' whole rfl
            obtain ⟨rfl, rfl⟩ : name = file ∧ result = also := by simpa using same
            exact .inr rfl
          · refine .inl (.inr ⟨before, also, shorter, ?_, rfl⟩)
            have longer : results ++ [(name, result)] =
                (before ++ (file, also) :: shorter) ++ [final] := by simpa using whole
            exact (List.append_inj' longer rfl).1

/-! ## Files in order -/

section InOrder

variable {result : String → Except SkipReason Agent} {names before after : List String}

/-- The roster of files whose results are known. -/
def ofFiles (result : String → Except SkipReason Agent) (names : List String) : Roster :=
  extend [] (names.map fun file => (file, result file))

theorem map_fst_ofFiles (result : String → Except SkipReason Agent) (names : List String) :
    (ofFiles result names).map (·.1) = names := by
  rw [ofFiles, map_fst_extend]
  simp [Function.comp_def]

theorem ofFiles_congr {other : String → Except SkipReason Agent}
    (same : ∀ file ∈ names, other file = result file) :
    ofFiles other names = ofFiles result names := by
  rw [ofFiles, ofFiles, List.map_congr_left fun file member => by rw [same file member]]

theorem nodup_slugs_ofFiles (result : String → Except SkipReason Agent) (names : List String) :
    ((ofFiles result names).agents.map Agent.slug).Nodup :=
  @nodup_slugs_extend [] List.nodup_nil _

/-- The entry of a file is what it yields after the files before it. -/
theorem mem_ofFiles_iff {outcome : LoadOutcome} :
    (file, outcome) ∈ ofFiles result names ↔
      ∃ before after, names = before ++ file :: after ∧
        outcome = (ofFiles result before).accept (result file) := by
  rw [ofFiles, mem_extend_iff]
  constructor
  · rintro (none | ⟨before, found, after, whole, rfl⟩)
    · cases none
    · obtain ⟨earlier, rest, rfl, rfl, last⟩ := List.map_eq_append_iff.mp whole
      obtain ⟨name, later, rfl, same, rfl⟩ := List.map_eq_cons_iff.mp last
      rw [Prod.mk.injEq] at same
      obtain ⟨rfl, rfl⟩ := same
      exact ⟨earlier, later, rfl, rfl⟩
  · rintro ⟨before, after, rfl, rfl⟩
    exact .inr ⟨_, _, after.map fun name => (name, result name), by simp, rfl⟩

/-- Where names are in strict order, the agents before a file are those of the files
whose names come before. -/
theorem loaded_mem_before_iff (sorted : (before ++ file :: after).Pairwise (· < ·)) :
    (first, .loaded agent) ∈ ofFiles result before ↔
      (first, .loaded agent) ∈ ofFiles result (before ++ file :: after) ∧ first < file := by
  obtain ⟨_, rest, across⟩ := List.pairwise_append.mp sorted
  constructor
  · intro member
    obtain ⟨earlier, later, rfl, accepted⟩ := mem_ofFiles_iff.mp member
    refine ⟨mem_ofFiles_iff.mpr ⟨earlier, later ++ file :: after, by simp, accepted⟩, ?_⟩
    exact across first (by simp) file List.mem_cons_self
  · rintro ⟨member, smaller⟩
    rw [ofFiles, List.map_append, extend_append, mem_extend_iff] at member
    rcases member with old | ⟨earlier, found, later, whole, _⟩
    · exact old
    · -- The names from the file on are not smaller than its own.
      have inside : (first, found) ∈ (file :: after).map fun name => (name, result name) := by
        rw [whole]
        simp
      obtain ⟨name, member, same⟩ := List.mem_map.mp inside
      obtain rfl : name = first := congrArg Prod.fst same
      rcases List.mem_cons.mp member with rfl | larger
      · exact absurd smaller (String.lt_irrefl _)
      · exact absurd smaller (String.lt_asymm ((List.pairwise_cons.mp rest).1 name larger))

/-- A file is skipped for its slug exactly if a file with a smaller name has yielded an
agent with that slug. -/
theorem slugTaken_mem_ofFiles_iff (sorted : names.Pairwise (· < ·))
    (sound : ∀ slug first, result file ≠ .error (.slugTaken slug first)) :
    (file, .skipped (.slugTaken slug first)) ∈ ofFiles result names ↔
      file ∈ names ∧ (∃ agent, result file = .ok agent ∧ agent.slug = slug) ∧ first < file ∧
        ∃ agent, (first, .loaded agent) ∈ ofFiles result names ∧ agent.slug = slug := by
  rw [mem_ofFiles_iff]
  constructor
  · rintro ⟨before, after, rfl, accepted⟩
    rcases accept_eq_skipped_iff.mp accepted.symm with failed | ⟨agent, holder, yields, held, same⟩
    · exact absurd failed (sound _ _)
    · obtain ⟨rfl, rfl⟩ := SkipReason.slugTaken.inj same
      obtain ⟨owner, member, also⟩ := of_fileOf?_eq_some held
      obtain ⟨inside, smaller⟩ := (loaded_mem_before_iff sorted).mp member
      exact ⟨by simp, ⟨agent, yields, rfl⟩, smaller, owner, inside, also⟩
  · rintro ⟨member, ⟨agent, yields, rfl⟩, smaller, owner, inside, same⟩
    obtain ⟨before, after, rfl⟩ := List.append_of_mem member
    refine ⟨before, after, rfl, Eq.symm (accept_eq_skipped_iff.mpr (.inr ?_))⟩
    have held := (loaded_mem_before_iff sorted).mpr ⟨inside, smaller⟩
    exact ⟨agent, first, yields,
      (fileOf?_eq_some_iff (nodup_slugs_ofFiles result before)).mpr ⟨owner, held, same⟩, rfl⟩

/-- A file is skipped for another reason exactly if it fails by itself. -/
theorem skipped_mem_ofFiles_iff (other : ∀ slug first, reason ≠ .slugTaken slug first) :
    (file, .skipped reason) ∈ ofFiles result names ↔
      file ∈ names ∧ result file = .error reason := by
  rw [mem_ofFiles_iff]
  constructor
  · rintro ⟨before, after, rfl, accepted⟩
    rcases accept_eq_skipped_iff.mp accepted.symm with failed | ⟨agent, holder, _, _, taken⟩
    · exact ⟨by simp, failed⟩
    · exact absurd taken (other _ _)
  · rintro ⟨member, failed⟩
    obtain ⟨before, after, rfl⟩ := List.append_of_mem member
    exact ⟨before, after, rfl, Eq.symm (accept_eq_skipped_iff.mpr (.inl failed))⟩

end InOrder

end AgentKit.Roster
