/-
# The root of a project stays the same

The root that is found from a directory is found from every directory between the two as well.
Nearer directories are left out when the search begins at a later one, and none of them was the
root. What an installation makes does not move the root either: it makes a directory of the
toolkit at the root, and no nearer directory comes to hold one, so from then on the root is found
by it, however it was found before.
-/

import AgentKit.Proofs.Command.Renewal

namespace AgentKit

namespace Files.Tree

variable {tree : Tree} {place : Location} {path : Path}

/-- The tree as it is seen from another directory. -/
def enter (tree : Tree) (place : Location) : Tree :=
  { tree with workingDirectory := place }

theorem current_enter (standing : tree.find? place = some .directory) :
    (tree.enter place).current = place :=
  if_pos standing

/-- What is at an absolute path does not depend on the working directory. -/
theorem isDirectory_enter (absolute : path.isAbsolute) :
    (tree.enter place).isDirectory path = tree.isDirectory path := by
  have start : (tree.enter place).startOf path = tree.startOf path := by
    rw [startOf, startOf, if_pos absolute, if_pos absolute]
  have located : (tree.enter place).locate path = tree.locate path := by
    rw [locate, locate, start]
    rfl
  rw [isDirectory, isDirectory, entryAt, entryAt, located]
  rfl

end Files.Tree

open Files (Tree Location isName)

namespace ProjectRoot

variable {tree before after : Tree} {base place current : Location} {name : Path}

theorem holding_enter {directories : List Path} (relative : name.isAbsolute = false)
    (absolute : ∀ directory ∈ directories, directory.isAbsolute) :
    holding (tree.enter place) name directories = holding tree name directories := by
  have same : ∀ directory ∈ directories,
      (tree.enter place).isDirectory (directory.join name) =
        tree.isDirectory (directory.join name) := by
    intro directory member
    apply Tree.isDirectory_enter
    rw [Path.isAbsolute_join directory relative]
    exact absolute directory member
  rw [holding, holding, ← List.head?_filter, ← List.head?_filter, List.filter_congr same]

/-- From another directory the root is looked for above the path of that directory. -/
theorem resolve_enter (standing : tree.find? place = some .directory) :
    resolve (tree.enter place) none = above tree (Path.ofPlace place) := by
  have absolute : ∀ directory ∈ (Path.ofPlace place).ancestors, directory.isAbsolute := by
    intro directory member
    rw [(Path.of_mem_ancestors member).2]
    exact Path.isAbsolute_ofPlace place
  rw [resolve, Tree.workingPath_eq_ofPlace, Tree.current_enter standing, above, above,
    holding_enter (by decide) absolute, holding_enter (by decide) absolute]

/-- The root is a directory on the way to the one where the search begins. -/
theorem exists_above_eq (tree : Tree) (named : ∀ part ∈ current, isName part) :
    ∃ base, base <+: current ∧ above tree (Path.ofPlace current) = Path.ofPlace base := by
  obtain ⟨nearer, farther, whole, _⟩ := above_spec tree (Path.ofPlace current)
  have member : above tree (Path.ofPlace current) ∈ (Path.ofPlace current).ancestors := by
    rw [whole]
    simp
  rw [Path.ancestors_ofPlace named] at member
  obtain ⟨base, inside, same⟩ := List.mem_map.mp member
  exact ⟨base, by simpa using inside, same.symm⟩

/-- The first directory that holds a name is found among the later ones, if it is not one of the
first. -/
theorem holding_of_append {root : Path} {first rest : List Path} (later : root ∉ first)
    (held : holding tree name (first ++ rest) = some root) :
    holding tree name rest = some root := by
  rw [holding, List.find?_append] at held
  cases found : first.find? fun directory => tree.isDirectory (directory.join name) with
  | none =>
      rw [found, Option.none_or] at held
      exact held
  | some directory =>
      rw [found, Option.some_or] at held
      exact absurd (Option.some.inj held ▸ List.mem_of_find?_eq_some found) later

theorem holding_eq_none_of_append {first rest : List Path}
    (held : holding tree name (first ++ rest) = none) : holding tree name rest = none := by
  rw [holding, List.find?_append, Option.or_eq_none_iff] at held
  exact held.2

/-- A place that begins one with more names behind it has no more names. -/
theorem eq_nil_of_append_isPrefix {more : Location} (begins : place ++ more <+: place) :
    more = [] := by
  have short := begins.length_le
  rw [List.length_append] at short
  exact List.eq_nil_of_length_eq_zero (by omega)

/-- The root is the root for every directory between. -/
theorem above_eq_of_between (named : ∀ part ∈ current, isName part)
    (root : above tree (Path.ofPlace current) = Path.ofPlace base) (behind : base <+: place)
    (ahead : place <+: current) : above tree (Path.ofPlace place) = Path.ofPlace base := by
  obtain ⟨way, rfl⟩ := ahead
  obtain ⟨nearer, whole, further⟩ := Path.exists_ancestors_append named
  have named_base : ∀ part ∈ base, isName part := fun part inside =>
    named part (List.mem_append_left way (behind.subset inside))
  have later : Path.ofPlace base ∉ nearer := by
    intro member
    obtain ⟨more, proper, begins, same⟩ := further _ member
    have within : place ++ more <+: place ++ way := (List.prefix_append_right_inj place).mpr begins
    obtain rfl := Path.ofPlace_inj named_base (fun part inside => named part (within.subset inside))
      same
    exact proper (eq_nil_of_append_isPrefix behind)
  rw [above, whole] at root
  rw [above]
  cases toolkit : holding tree toolkitDirectory (nearer ++ (Path.ofPlace place).ancestors) with
  | some found =>
      rw [toolkit, Option.some_or, Option.getD_some] at root
      rw [holding_of_append (root ▸ later) toolkit, Option.some_or, Option.getD_some, root]
  | none =>
      rw [toolkit, Option.none_or] at root
      rw [holding_eq_none_of_append toolkit, Option.none_or]
      cases repository :
          holding tree repositoryDirectory (nearer ++ (Path.ofPlace place).ancestors) with
      | some found =>
          rw [repository, Option.getD_some] at root
          rw [holding_of_append (root ▸ later) repository, Option.getD_some, root]
      | none =>
          -- The root is where the search has begun, and so no directory lies between.
          rw [repository, Option.getD_none] at root
          obtain rfl := Path.ofPlace_inj named named_base root
          obtain rfl := eq_nil_of_append_isPrefix behind
          rw [holding_eq_none_of_append repository, Option.getD_none, List.append_nil]

/-- From the working directory and every directory between, the root is found that is found from
the working directory. -/
theorem resolve_enter_of_between (root : resolve tree none = Path.ofPlace base)
    (behind : base <+: place) (ahead : place <+: tree.current) :
    resolve (tree.enter place) none = resolve tree none := by
  have standing : tree.find? place = some .directory := by
    obtain ⟨way, whole⟩ := ahead
    exact Tree.find?_above (whole ▸ tree.find?_current)
  rw [resolve, Tree.workingPath_eq_ofPlace] at root
  rw [resolve_enter standing, resolve, Tree.workingPath_eq_ofPlace, root]
  exact above_eq_of_between (Tree.isName_of_find? tree.find?_current) root behind ahead

end ProjectRoot

/-- A job that is carried out below the root that was found leaves it where it is, and so does it
with the working directory. -/
theorem Job.resolve_of_run {job : Job} {time : Timestamp} {before : Tree} {installed : Installed}
    (done : (job.run (ProjectRoot.resolve before none) time before).result = .ok installed) :
    (job.run (ProjectRoot.resolve before none) time before).tree.current = before.current ∧
      ProjectRoot.resolve (job.run (ProjectRoot.resolve before none) time before).tree none =
        ProjectRoot.resolve before none := by
  obtain ⟨_, roster, _, _, _, _, _, loaded, all, _, kept, _⟩ := steps_of_run done
  have plain : ∀ agent ∈ roster.agents, '/' ∉ agent.stem.toList :=
    fun _ => LoadRequest.slash_notMem_stem loaded
  have steady : before.Steady (ProjectRoot.resolve before none) :=
    ProjectRoot.steady_resolve (by simp)
  obtain ⟨leaves, targets, _⟩ := of_installAll plain steady all
  have settled := settled_of_recorded plain steady (isOutput_planOf _ _ plain) leaves targets
    leaves.holds kept
  obtain ⟨_, _, left⟩ := settled.leaves
  exact ⟨left.current, settled.resolve⟩

end AgentKit
