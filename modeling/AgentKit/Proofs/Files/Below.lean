/-
# Names in directories

What is at a name below a path is what lies under that name in the directory that the
path leads to, if the text of the whole path has no flaw.

A path that leads to a directory of a later tree need not have led there before, even if
the directory was there: a path that leads upwards needs all directories that it passes.
A path is steady in a tree if this cannot happen.
-/

import AgentKit.Proofs.Files.Listing

namespace AgentKit.Path

variable {above path name : Path}

theorem isAbsolute_of_slash_notMem (plain : '/' ∉ name.toList) : name.isAbsolute = false := by
  cases shape : name.toList with
  | nil => simp [isAbsolute, shape]
  | cons c others =>
      have other : c ≠ '/' := by
        rintro rfl
        exact plain (by simp [shape])
      simp [isAbsolute, shape, other]

theorem endsInSlash_of_slash_notMem (plain : '/' ∉ name.toList) : name.endsInSlash = false := by
  rw [endsInSlash, beq_eq_false_iff_ne]
  exact fun last => plain (List.mem_of_getLast? last)

theorem ne_dot_of_mem_moves {move : String} (member : move ∈ path.moves) : move ≠ "." := by
  rintro rfl
  exact absurd (List.mem_filter.mp member).2 (by decide)

theorem join_ne_empty (root : Path) (named : path ≠ "") (relative : path.isAbsolute = false) :
    root.join path ≠ "" := by
  rw [join, if_neg (by simp [relative])]
  split <;> simp [named]

theorem endsInSlash_join (root : Path) (named : path ≠ "") (relative : path.isAbsolute = false) :
    (root.join path).endsInSlash = path.endsInSlash := by
  have filled : path.toList ≠ [] := mt String.toList_eq_nil_iff.mp named
  rw [join, if_neg (by simp [relative])]
  split
  · simp [endsInSlash, List.getLast?_append_of_ne_nil _ filled]
  · rw [endsInSlash, endsInSlash, String.toList_append, List.getLast?_append_of_ne_nil _ filled]

/-- The text of a relative path below a path that has no slash at its end. -/
theorem join_eq_append_slash (named : above ≠ "") (ends : above.endsInSlash = false)
    (relative : path.isAbsolute = false) : above.join path = above ++ "/" ++ path := by
  rw [join, if_neg (by simp [relative]), if_neg (by simp [named, ends])]

/-- Below a root, a longer relative path is a longer text. -/
theorem join_append (root : Path) {rest : String} (relative : path.isAbsolute = false)
    (also : isAbsolute (path ++ rest) = false) :
    root.join (path ++ rest) = root.join path ++ rest := by
  simp only [join, relative, also, Bool.false_eq_true, if_false]
  split <;> simp [String.append_assoc]

/-- A path in a directory below a root is a name below that directory. -/
theorem join_join (root : Path) (named : above ≠ "") (relative : above.isAbsolute = false)
    (ends : above.endsInSlash = false) (plain : '/' ∉ name.toList) :
    (root.join above).join name = root.join (above ++ "/" ++ name) := by
  have still : isAbsolute (above ++ "/" ++ name) = false := by
    obtain ⟨c, others, whole⟩ :=
      List.exists_cons_of_ne_nil (mt String.toList_eq_nil_iff.mp named)
    simpa [isAbsolute, whole] using relative
  rw [join_eq_append_slash (join_ne_empty root named relative)
      ((endsInSlash_join root named relative).trans ends) (isAbsolute_of_slash_notMem plain)]
  simp only [join, relative, still, Bool.false_eq_true, if_false]
  split <;> simp [String.append_assoc]

end AgentKit.Path

namespace AgentKit.Files

theorem isName_iff {name : String} :
    isName name ↔ name ≠ "" ∧ name ≠ "." ∧ name ≠ ".." ∧ '/' ∉ name.toList ∧
      '\x00' ∉ name.toList := by
  simp [isName, and_assoc]

namespace Tree

variable {tree before after : Tree} {location result above below : Location} {path root : Path}
  {name : String}

/-! ## A name below a path -/

theorem steps_of_isName (named : isName name) : Path.steps name = [name] := by
  obtain ⟨filled, _, _, plain, _⟩ := isName_iff.mp named
  have counts : name.isEmpty = false := by simpa using filled
  rw [Path.steps, Path.parts_of_not_mem plain]
  simp [counts]

theorem locate_join (named : isName name) (flaw : flaw? (root.join name) = none) :
    tree.locate (root.join name) =
      (tree.reach root).map fun location => .name location name false := by
  obtain ⟨filled, here, upwards, plain, _⟩ := isName_iff.mp named
  have relative := Path.isAbsolute_of_slash_notMem plain
  have slash : (root.join name).endsInSlash = false := by
    rw [Path.endsInSlash_join root filled relative, Path.endsInSlash_of_slash_notMem plain]
  simp only [locate, flaw, startOf_join tree root relative, Path.steps_join root relative,
    steps_of_isName named, List.getLast?_concat, List.dropLast_concat, slash, here, upwards, reach]
  cases tree.walk (tree.startOf root) root.steps <;> rfl

/-- A file at a name below a path lies in the directory that the path leads to. -/
theorem of_target?_join_name (named : isName name)
    (leads : tree.target? (root.join name) = some result) :
    ∃ location, tree.reach root = .ok location ∧ result = location ++ [name] := by
  obtain ⟨location, last, located, _, rfl⟩ := target?_eq_some_iff.mp leads
  rw [locate_join named (flaw?_of_locate located)] at located
  cases reached : tree.reach root with
  | error fault =>
      rw [reached] at located
      contradiction
  | ok above =>
      rw [reached] at located
      obtain ⟨rfl, rfl, _⟩ := Spot.name.inj (Except.ok.inj located)
      exact ⟨above, rfl, rfl⟩

/-- What is at a name below a path lies in the directory that the path leads to. -/
theorem entryAt_join (named : isName name) (flaw : flaw? (root.join name) = none) :
    tree.entryAt (root.join name) =
      tree.reach root >>= fun location => tree.lookUp location name >>= fun found =>
        match found with
        | none => .error .notFound
        | some entry => .ok entry := by
  rw [entryAt, locate_join named flaw]
  cases tree.reach root with
  | error fault => rfl
  | ok location =>
      simp only [Except.map, bind, Except.bind]
      cases tree.lookUp location name with
      | error fault => rfl
      | ok found =>
          cases found with
          | none => rfl
          | some entry => cases entry <;> rfl

theorem entryAt_of_flaw {fault : Fault} (flaw : flaw? path = some fault) :
    tree.entryAt path = .error fault := by
  rw [entryAt, locate, flaw]
  rfl

theorem entryAt_join_eq_ok_iff {entry : Entry} (named : isName name) :
    tree.entryAt (root.join name) = .ok entry ↔
      flaw? (root.join name) = none ∧ name.utf8ByteSize ≤ nameLimit ∧
        ∃ location, tree.reach root = .ok location ∧
          tree.find? (location ++ [name]) = some entry := by
  cases flaw : flaw? (root.join name) with
  | some fault => simp [entryAt_of_flaw flaw]
  | none =>
      rw [entryAt_join named flaw]
      simp only [bind_eq_ok_iff, lookUp]
      constructor
      · rintro ⟨location, reached, found, sought, entry⟩
        split at sought
        · contradiction
        · next short =>
          refine ⟨trivial, Nat.not_lt.mp short, location, reached, ?_⟩
          rw [Except.ok.inj sought]
          cases found with
          | none => contradiction
          | some _ => rw [Except.ok.inj entry]
      · rintro ⟨_, short, location, reached, found⟩
        exact ⟨location, reached, some entry, by simp [Nat.not_lt.mpr short, found], rfl⟩

/-- The beginning of a text without a flaw has none, unless it is empty. -/
theorem flaw?_of_append {rest : String} (named : path ≠ "") (flaw : flaw? (path ++ rest) = none) :
    flaw? path = none := by
  have filled : path.isEmpty = false := by simpa using named
  unfold flaw? at flaw ⊢
  simp only [String.toList_append, String.utf8ByteSize_append, List.contains_eq_mem,
    List.mem_append, filled] at flaw ⊢
  split at flaw
  · contradiction
  · next zero =>
    split at flaw
    · contradiction
    · split at flaw
      · contradiction
      · next short =>
        have free : '\x00' ∉ path.toList := fun inside => zero (by simp [inside])
        have small : ¬ path.utf8ByteSize ≥ pathLimit := by omega
        simp [free, small]

/-- A path below a directory begins with the path of the directory. -/
theorem exists_join_eq_append (root : Path) (relative : path.isAbsolute = false) :
    ∃ rest, root.join path = root ++ rest := by
  rw [Path.join, if_neg (by simp [relative])]
  split
  · exact ⟨path, rfl⟩
  · exact ⟨"/" ++ path, by rw [String.append_assoc]⟩

/-- A path has no flaw if a path below it has none. -/
theorem flaw?_of_join (named : root ≠ "") (relative : path.isAbsolute = false)
    (flaw : flaw? (root.join path) = none) : flaw? root = none := by
  obtain ⟨rest, whole⟩ := exists_join_eq_append root relative
  exact flaw?_of_append named (whole ▸ flaw)

theorem isThere_iff : tree.isThere path ↔ ∃ entry, tree.entryAt path = .ok entry := by
  unfold isThere
  split <;> simp_all

/-- What is at a name below a path depends on one place only. -/
theorem entryAt_join_congr (named : isName name) (reached : before.reach root = .ok location)
    (again : after.reach root = .ok location)
    (same : after.find? (location ++ [name]) = before.find? (location ++ [name])) :
    after.entryAt (root.join name) = before.entryAt (root.join name) := by
  cases flaw : flaw? (root.join name) with
  | some fault => rw [entryAt_of_flaw flaw, entryAt_of_flaw flaw]
  | none =>
      rw [entryAt_join named flaw, entryAt_join named flaw, reached, again]
      simp only [bind, Except.bind, lookUp, same]

/-! ## Steady paths -/

/-- The places above a directory are directories. -/
theorem find?_above (there : tree.find? (above ++ below) = some .directory) :
    tree.find? above = some .directory := by
  induction below using List.reverseRecOn with
  | nil => simpa using there
  | append_singleton names last ih =>
      have inner := find?_dropLast there
      rw [← List.append_assoc, List.dropLast_concat] at inner
      exact ih inner

/-- Above everything there is something. -/
theorem exists_find?_above {entry : Entry} (found : tree.find? (above ++ below) = some entry) :
    ∃ other, tree.find? above = some other := by
  cases below using List.reverseRecOn with
  | nil => exact ⟨entry, by simpa using found⟩
  | append_singleton names last =>
      have inner := find?_dropLast found
      rw [← List.append_assoc, List.dropLast_concat] at inner
      exact ⟨.directory, find?_above inner⟩

/-- Where a path leads to something, its first name does. -/
theorem isThere_first {more : List String} {place : Location} {entry : Entry}
    (named : isName name) (short : name.utf8ByteSize ≤ nameLimit) (ordinary : path.IsOrdinary)
    (parts : path.parts = name :: more) (leads : tree.target? (root.join path) = some place)
    (found : tree.find? place = some entry) : tree.isThere (root.join name) := by
  obtain ⟨filled, here, upwards, plain, _⟩ := isName_iff.mp named
  have relative := Path.isAbsolute_of_slash_notMem plain
  obtain ⟨rest, text⟩ : ∃ rest, path = name ++ rest := by
    rw [← Path.intercalate_parts path, parts]
    cases more with
    | nil => exact ⟨"", by simp⟩
    | cons second more =>
        exact ⟨"/" ++ "/".intercalate (second :: more), by simp [String.append_assoc]⟩
  have moves : path.moves = name :: more.filter (!Path.isIdle ·) := by
    rw [Path.moves, parts, List.filter_cons_of_pos]
    simp [Path.isIdle, filled, here]
  obtain ⟨_, _, located, _⟩ := target?_eq_some_iff.mp leads
  have flaw := (locate_eq_name_iff.mp located).1
  obtain ⟨base, reached, rfl⟩ := of_target?_join ordinary leads
  rw [moves, List.append_cons] at found
  obtain ⟨other, there⟩ := exists_find?_above found
  rw [text, Path.join_append root relative (text ▸ ordinary.isAbsolute)] at flaw
  refine isThere_iff.mpr
    ⟨other, (entryAt_join_eq_ok_iff named).mpr ⟨?_, short, base, reached, there⟩⟩
  exact flaw?_of_append (Path.join_ne_empty root filled relative) flaw

/-- A walk that never leads upwards is possible wherever the directory at its end is
there. -/
theorem walk_of_find? {parts : List String} (never : ".." ∉ parts)
    (walked : after.walk location parts = .ok result)
    (there : before.find? result = some .directory) :
    before.walk location parts = .ok result := by
  induction parts generalizing location with
  | nil => exact walked
  | cons part parts ih =>
      rw [List.mem_cons, not_or] at never
      obtain ⟨next, followed, rest⟩ := walk_cons_eq_ok_iff.mp walked
      refine walk_cons_eq_ok_iff.mpr ⟨next, ?_, ih never.2 rest⟩
      rcases follow_eq_ok_iff.mp followed with here | upwards | ⟨other, also, short, _, ends⟩
      · exact follow_eq_ok_iff.mpr (.inl here)
      · exact absurd upwards.1.symm never.1
      · rw [walk_of_not_up never.2 rest, ends] at there
        exact follow_eq_ok_iff.mpr (.inr (.inr ⟨other, also, short, find?_above there, ends⟩))

/-- A path that never leads upwards can be followed wherever the directory that it leads
to is there. -/
theorem reach_of_find? (current : after.current = before.current) (never : ".." ∉ path.moves)
    (reached : after.reach path = .ok location)
    (there : before.find? location = some .directory) : before.reach path = .ok location := by
  have begins : after.startOf path = before.startOf path := by rw [startOf, startOf, current]
  rw [reach_eq_walk_moves, begins] at reached
  rw [reach_eq_walk_moves]
  exact walk_of_find? never reached there

/-- A path that never leads upwards adds its moves to the directory where it begins. -/
theorem location_of_not_up (never : ".." ∉ path.moves) (reached : tree.reach path = .ok location) :
    location = tree.startOf path ++ path.moves := by
  rw [reach_eq_walk_moves] at reached
  rw [walk_of_not_up never reached, List.filter_eq_self.mpr]
  intro move member
  simpa using Path.ne_dot_of_mem_moves member

/-- An ordinary path below a root adds its moves to the directory of the root. -/
theorem reach_join_eq_ok_iff (ordinary : path.IsOrdinary) :
    tree.reach (root.join path) = .ok location ↔
      ∃ base, tree.reach root = .ok base ∧ tree.walk base path.moves = .ok location ∧
        location = base ++ path.moves := by
  have relative := ordinary.isAbsolute
  have start := startOf_join tree root relative
  rw [reach_eq_walk_moves, start, Path.moves_join root relative, walk_append_eq_ok_iff,
    ← reach_eq_walk_moves]
  refine exists_congr fun base => and_congr_right fun _ => (and_iff_left_of_imp ?_).symm
  intro walked
  rw [walk_of_not_up ordinary.not_up walked, List.filter_eq_self.mpr]
  intro move member
  simpa using Path.ne_dot_of_mem_moves member

/-- A path that can be followed already, or that never leads upwards. -/
def Steady (tree : Tree) (path : Path) : Prop :=
  (∃ location, tree.reach path = .ok location) ∨ ".." ∉ path.moves

/-- Where a steady path comes to lead, it has led before if the directory was there. -/
theorem Steady.reach (steady : before.Steady path) (keeps : KeepsDirectories before after)
    (reached : after.reach path = .ok location)
    (there : before.find? location = some .directory) : before.reach path = .ok location := by
  rcases steady with ⟨place, led⟩ | never
  · rw [keeps.reach led] at reached
    rw [led, reached]
  · exact reach_of_find? keeps.current never reached there

/-- A directory below a steady root that comes to be found was found if it was there. -/
theorem Steady.reach_join (steady : before.Steady root) (keeps : KeepsDirectories before after)
    (ordinary : path.IsOrdinary) (led : after.reach (root.join path) = .ok location)
    (there : before.find? location = some .directory) :
    before.reach (root.join path) = .ok location := by
  obtain ⟨base, reached, walked, rfl⟩ := (reach_join_eq_ok_iff ordinary).mp led
  exact (reach_join_eq_ok_iff ordinary).mpr
    ⟨base, steady.reach keeps reached (find?_above there),
      walk_of_find? ordinary.not_up walked there, rfl⟩

/-- A directory that is new on a way below a steady root lies below the directory of the root by
the moves of the way. -/
theorem Steady.isPrefix_of_new {via : Path} {way : List String} (steady : before.Steady root)
    (keeps : KeepsDirectories before after) (reached : after.reach root = .ok result)
    (never : ".." ∉ way) (absolute : via.isAbsolute = root.isAbsolute)
    (begins : via.moves <+: root.moves ++ way) (led : after.reach via = .ok location)
    (absent : before.find? location = none) : location <+: result ++ way := by
  have start : after.startOf via = after.startOf root := by
    rw [startOf, startOf, absolute]
  rcases List.prefix_or_prefix_of_prefix begins (List.prefix_append _ _) with short | ⟨rest, long⟩
  · rcases steady with ⟨place, reached'⟩ | level
    · -- What a path passes that can be followed already is no new directory.
      obtain ⟨rest, long⟩ := short
      rw [reach_eq_walk_moves, ← long, walk_append_eq_ok_iff] at reached'
      obtain ⟨passed, walked, _⟩ := reached'
      have there := find?_walk (find?_startOf before root) walked
      have again := keeps.walk walked
      rw [← keeps.startOf, ← start, ← reach_eq_walk_moves, led] at again
      rw [← Except.ok.inj again, absent] at there
      contradiction
    · rw [location_of_not_up (fun upwards => level (short.subset upwards)) led,
        location_of_not_up level reached, start]
      exact ((List.prefix_append_right_inj _).mpr short).trans (List.prefix_append _ _)
  · rw [← long, List.prefix_append_right_inj] at begins
    rw [reach_eq_walk_moves, start, ← long, walk_append_eq_ok_iff, ← reach_eq_walk_moves,
      reached] at led
    obtain ⟨place, same, walked⟩ := led
    obtain rfl := Except.ok.inj same
    have counts (move : String) (member : move ∈ rest) : move ≠ "." := by
      have whole : move ∈ via.moves := by
        rw [← long]
        exact List.mem_append_right _ member
      exact Path.ne_dot_of_mem_moves whole
    rw [walk_of_not_up (fun upwards => never (begins.subset upwards)) walked,
      List.filter_eq_self.mpr fun move member => by simpa using counts move member,
      List.prefix_append_right_inj]
    exact begins

/-- What is at a name below a path is as it was, if its place is and the path was found
where its directory was there. -/
theorem entryAt_join_congr_of_keeps {entry : Entry} (named : isName name)
    (keeps : KeepsDirectories before after)
    (found_before : ∀ location, after.reach root = .ok location →
      before.find? location = some .directory → before.reach root = .ok location)
    (same : ∀ location, after.reach root = .ok location →
      after.find? (location ++ [name]) = before.find? (location ++ [name])) :
    after.entryAt (root.join name) = .ok entry ↔ before.entryAt (root.join name) = .ok entry := by
  rw [entryAt_join_eq_ok_iff named, entryAt_join_eq_ok_iff named]
  refine and_congr_right fun _ => and_congr_right fun _ => exists_congr fun location => ?_
  constructor
  · rintro ⟨led, found⟩
    rw [same location led] at found
    exact ⟨found_before location led (by simpa using find?_dropLast found), found⟩
  · rintro ⟨led, found⟩
    have led := keeps.reach led
    exact ⟨led, by rw [same location led, found]⟩

theorem Steady.mono (steady : before.Steady path) (keeps : KeepsDirectories before after) :
    after.Steady path :=
  steady.imp_left fun ⟨location, led⟩ => ⟨location, keeps.reach led⟩

end Tree

end AgentKit.Files
