/-
# Laws of paths

What a path leads to depends on its moves: the names in it and the steps upwards.
A path below a directory makes the moves of both, and the path of the directory that
holds the last component makes all moves but the last. That path is also the
beginning of the text, so a text that is a path has only paths above it.

A path is ordinary when all its components are names. Ordinary paths have the same
components exactly when they make the same moves.
-/

import AgentKit.Files.Path
import AgentKit.Proofs.Text.Split
import Mathlib.Data.List.DropRight

namespace AgentKit.Path

/-- The parts of a path that count: names and steps upwards. -/
def moves (path : Path) : List String :=
  path.parts.filter (!isIdle ·)

/-- Whether a component is an entry of a directory. -/
def Component.isEntry : Component → Bool
  | .name _ => true
  | .root | .current | .parent => false

/-- A relative path of which every component is a name. -/
def IsOrdinary (path : Path) : Prop :=
  ∀ component ∈ path.components, component.isEntry

instance (path : Path) : Decidable path.IsOrdinary :=
  inferInstanceAs (Decidable (∀ component ∈ path.components, component.isEntry))

theorem parts_ne_nil (path : Path) : path.parts ≠ [] := by
  simpa [parts, Text.splitAt] using Text.splitWhere_ne_nil _ _

/-- A part has no slash, and its characters are those of the path. -/
theorem of_mem_parts {path : Path} {part : String} (member : part ∈ path.parts) {c : Char}
    (inside : c ∈ part.toList) : c ∈ path.toList ∧ c ≠ '/' := by
  obtain ⟨piece, cut, rfl⟩ := List.mem_map.mp member
  rw [String.toList_ofList] at inside
  simpa using Text.mem_and_not_of_mem_splitWhere cut inside

theorem not_slash_of_mem_parts {path : Path} {part : String} (member : part ∈ path.parts) :
    '/' ∉ part.toList :=
  fun inside => (of_mem_parts member inside).2 rfl

/-- The parts of a path, with slashes between them, are the path. -/
theorem intercalate_parts (path : Path) : "/".intercalate path.parts = path := by
  apply String.toList_inj.mp
  rw [String.toList_intercalate, parts, List.map_map,
    show String.toList ∘ String.ofList = id by funext cs; simp, List.map_id]
  exact Text.intercalate_splitAt '/' path.toList

theorem parts_intercalate {parts : List String} (some_part : parts ≠ [])
    (whole : ∀ part ∈ parts, '/' ∉ part.toList) : Path.parts ("/".intercalate parts) = parts := by
  rw [Path.parts, String.toList_intercalate, show "/".toList = ['/'] from rfl,
    Text.splitAt_intercalate (by simpa using some_part) (by simpa using whole), List.map_map,
    show String.ofList ∘ String.toList = id by funext s; simp, List.map_id]

theorem parts_append_slash (above below : String) :
    Path.parts (above ++ "/" ++ below) = parts above ++ parts below := by
  rw [parts, show (above ++ "/" ++ below).toList = above.toList ++ '/' :: below.toList by simp,
    Text.splitAt_append_cons, List.map_append]
  rfl

theorem moves_append_slash (above below : String) :
    moves (above ++ "/" ++ below) = moves above ++ moves below := by
  rw [moves, parts_append_slash, List.filter_append]
  rfl

/-- A text without a slash is a single part. -/
theorem parts_of_not_mem {name : String} (plain : '/' ∉ name.toList) : parts name = [name] := by
  rw [parts, Text.splitAt_eq_singleton plain]
  simp

theorem moves_of_not_mem {name : String} (plain : '/' ∉ name.toList) (counts : ¬ isIdle name) :
    moves name = [name] := by
  rw [moves, parts_of_not_mem plain, List.filter_cons_of_pos (by simpa using counts)]
  rfl

@[simp]
theorem isAbsolute_empty : isAbsolute "" = false := rfl

/-- A path below a directory keeps all that counts of both, in any sense in which
empty parts do not count. -/
theorem filter_parts_join {counts : String → Bool} (empty : counts "" = false)
    (directory : Path) {path : Path} (relative : path.isAbsolute = false) :
    (join directory path).parts.filter counts =
      directory.parts.filter counts ++ path.parts.filter counts := by
  have nothing : (parts "").filter counts = [] := by
    rw [show parts "" = [""] by decide, List.filter_singleton, empty]; rfl
  rw [join, if_neg (by simp [relative])]
  by_cases unnamed : directory = ""
  · rw [if_pos (by simp [unnamed]), unnamed, nothing]
    simp
  · by_cases slash : directory.endsInSlash
    · -- The slash at the end of the directory separates it from the path.
      obtain ⟨shorter, whole⟩ : ∃ shorter : String, directory = shorter ++ "/" := by
        have last : directory.toList.getLast? = some '/' := by simpa [endsInSlash] using slash
        refine ⟨String.ofList directory.toList.dropLast, String.toList_inj.mp ?_⟩
        rw [String.toList_append, String.toList_ofList]
        exact (List.dropLast_append_getLast? '/' last).symm
      have trailing := parts_append_slash shorter ""
      rw [String.append_empty] at trailing
      rw [if_pos (by simp [slash]), whole, parts_append_slash, trailing, List.filter_append,
        List.filter_append, nothing, List.append_nil]
    · rw [if_neg (by simp [unnamed, slash]), parts_append_slash, List.filter_append]

theorem steps_join (directory : Path) {path : Path} (relative : path.isAbsolute = false) :
    (join directory path).steps = directory.steps ++ path.steps :=
  filter_parts_join (by decide) directory relative

theorem moves_join (directory : Path) {path : Path} (relative : path.isAbsolute = false) :
    (join directory path).moves = directory.moves ++ path.moves :=
  filter_parts_join (by decide) directory relative

theorem isAbsolute_join (directory : Path) {path : Path} (relative : path.isAbsolute = false) :
    (join directory path).isAbsolute = directory.isAbsolute := by
  rw [join, if_neg (by simp [relative])]
  by_cases unnamed : directory = ""
  · simpa [unnamed] using relative
  · obtain ⟨first, others, whole⟩ :=
      List.exists_cons_of_ne_nil (mt String.toList_eq_nil_iff.mp unnamed)
    split <;> simp [isAbsolute, whole]

/-- The first part of a path that is not empty and does not begin at the top is not
empty either. -/
theorem first_part_of_relative {path : Path} (named : path ≠ "")
    (relative : path.isAbsolute = false) :
    ∃ first others, path.parts = first :: others ∧ first ≠ "" := by
  obtain ⟨c, others, text⟩ := List.exists_cons_of_ne_nil (mt String.toList_eq_nil_iff.mp named)
  have slash : c ≠ '/' := by
    rintro rfl
    simp [isAbsolute, text] at relative
  obtain ⟨piece, pieces, rest⟩ :=
    List.exists_cons_of_ne_nil (Text.splitWhere_ne_nil (· == '/') others)
  refine ⟨String.ofList (c :: piece), pieces.map String.ofList, ?_, by simp⟩
  rw [parts, text, Text.splitAt, Text.splitWhere_cons_of_neg (by simpa using slash) rest,
    List.map_cons]

/-- A text without a step is empty or begins at the top. -/
theorem isAbsolute_of_steps_eq_nil {path : Path} (nowhere : path.steps = []) (named : path ≠ "") :
    path.isAbsolute := by
  by_contra relative
  obtain ⟨first, others, whole, filled⟩ :=
    first_part_of_relative named (by simpa using relative)
  simp [steps, whole, filled] at nowhere

/-- Only the empty text has no component. -/
theorem eq_empty_of_components_eq_nil {path : Path} (nothing : path.components = []) :
    path = "" := by
  by_contra named
  rw [components] at nothing
  split at nothing
  · simp at nothing
  · next relative =>
    obtain ⟨first, others, whole, filled⟩ :=
      first_part_of_relative named (by simpa using relative)
    split at nothing
    · simp at nothing
    · next other =>
      have dot : first ≠ "." := by
        rintro rfl
        simp [beginsAtCurrent, whole] at other
      rw [whole] at nothing
      by_cases upwards : first = ".." <;>
        simp [componentOf?, isIdle, filled, dot, upwards] at nothing

/-- The moves of a path are its steps other than single full stops. -/
theorem moves_eq_filter_steps (path : Path) : path.moves = path.steps.filter (· ≠ ".") := by
  rw [moves, steps, List.filter_filter]
  congr 1
  funext part
  by_cases nothing : part = "" <;> simp [isIdle, nothing]

/-- The first part of a path that begins with a slash is empty, and it is not the
last. -/
theorem parts_of_isAbsolute {path : Path} (absolute : path.isAbsolute) :
    path.parts = "" :: path.parts.tail ∧ path.parts.tail ≠ [] := by
  obtain ⟨rest, text⟩ : ∃ rest, path.toList = '/' :: rest := by
    cases shape : path.toList with
    | nil => simp [isAbsolute, shape] at absolute
    | cons c rest => exact ⟨rest, by simp_all [isAbsolute]⟩
  have cut : path.parts = "" :: (Text.splitAt '/' rest).map String.ofList := by
    rw [parts, text, Text.splitAt, Text.splitWhere_cons_of_pos (by simp)]
    rfl
  rw [cut]
  exact ⟨rfl, by simpa [Text.splitAt] using Text.splitWhere_ne_nil _ _⟩

theorem parts_of_beginsAtCurrent {path : Path} (current : path.beginsAtCurrent) :
    path.parts = "." :: path.parts.tail := by
  obtain ⟨first, others, whole⟩ := List.exists_cons_of_ne_nil path.parts_ne_nil
  have : first = "." := by simpa [beginsAtCurrent, whole] using current
  rw [whole, this, List.tail_cons]

/-- The parts of a path before its body are idle. -/
theorem moves_eq_filter_body (path : Path) : path.moves = path.body.filter (!isIdle ·) := by
  rw [moves, body]
  split
  · next starts =>
    rcases (Bool.or_eq_true _ _).mp starts with absolute | current
    · conv_lhs => rw [(parts_of_isAbsolute absolute).1]
      exact List.filter_cons_of_neg (by decide)
    · conv_lhs => rw [parts_of_beginsAtCurrent current]
      exact List.filter_cons_of_neg (by decide)
  · rfl

/-! ## The directory that holds the last component -/

theorem dropIdle_isPrefix (parts : List String) : dropIdle parts <+: parts :=
  List.rdropWhile_prefix isIdle parts

theorem filter_dropIdle (parts : List String) :
    (dropIdle parts).filter (!isIdle ·) = parts.filter (!isIdle ·) := by
  induction parts using List.reverseRecOn with
  | nil => rfl
  | append_singleton others last ih =>
      by_cases idle : isIdle last
      · rw [dropIdle, ← List.rdropWhile, List.rdropWhile_concat_pos _ _ _ idle,
          List.filter_append, List.filter_cons_of_neg (by simp [idle]), List.filter_nil,
          List.append_nil]
        exact ih
      · rw [dropIdle, ← List.rdropWhile, List.rdropWhile_concat_neg _ _ _ idle]

/-- Without its last part, a list that does not end in an idle part loses one move. -/
theorem filter_dropLast_dropIdle (parts : List String) :
    (dropIdle parts).dropLast.filter (!isIdle ·) = (parts.filter (!isIdle ·)).dropLast := by
  rw [← filter_dropIdle parts]
  by_cases none : dropIdle parts = []
  · simp [none]
  · have counts : ¬ isIdle ((dropIdle parts).getLast none) :=
      List.rdropWhile_last_not isIdle parts none
    conv_rhs => rw [← List.dropLast_append_getLast none]
    rw [List.filter_append, List.filter_cons_of_pos (by simp [counts]), List.filter_nil,
      List.dropLast_concat]

theorem body_sublist (path : Path) : path.body.Sublist path.parts := by
  rw [body]
  split
  · exact List.tail_sublist _
  · exact List.Sublist.refl _

/-- The text of a path is its start and its body. -/
theorem ofBody_start_body (path : Path) : ofBody path.start path.body = path := by
  have text := intercalate_parts path
  rw [← String.toList_inj, String.toList_intercalate] at text
  by_cases absolute : path.isAbsolute
  · obtain ⟨first, more⟩ := parts_of_isAbsolute absolute
    have starts : path.start = "/" := by rw [start, if_pos absolute]
    have continues : path.body = path.parts.tail := by rw [body, if_pos (by simp [absolute])]
    rw [first, List.map_cons,
      List.intercalate_cons_of_ne_nil (mt List.map_eq_nil_iff.mp more)] at text
    rw [starts, continues, ofBody, if_neg (by simp), ← String.toList_inj, String.toList_append,
      String.toList_intercalate]
    exact text
  · by_cases current : path.beginsAtCurrent
    · have first := parts_of_beginsAtCurrent current
      have starts : path.start = "." := by rw [start, if_neg absolute, if_pos current]
      have continues : path.body = path.parts.tail := by rw [body, if_pos (by simp [current])]
      rw [starts, continues]
      rw [first, List.map_cons] at text
      by_cases alone : path.parts.tail = []
      · rw [alone] at text ⊢
        exact String.toList_inj.mp text
      · rw [List.intercalate_cons_of_ne_nil (mt List.map_eq_nil_iff.mp alone)] at text
        rw [ofBody, if_pos (by simpa using alone), ← String.toList_inj, String.toList_append,
          String.toList_intercalate]
        exact text
    · have starts : path.start = "" := by rw [start, if_neg absolute, if_neg current]
      have continues : path.body = path.parts := by
        rw [body, if_neg (by simp [absolute, current])]
      rw [starts, continues, ofBody, if_neg (by simp), intercalate_parts, String.empty_append]

/-- A shorter body gives a text with which the longer one begins. -/
theorem ofBody_isPrefix (start : String) {short long : List String} (begins : short <+: long) :
    (ofBody start short).toList <+: (ofBody start long).toList := by
  have inner : ("/".intercalate short).toList <+: ("/".intercalate long).toList := by
    rw [String.toList_intercalate, String.toList_intercalate]
    exact Text.intercalate_isPrefix (begins.map _)
  by_cases dot : start = "."
  · by_cases none : short = []
    · by_cases nothing : long = []
      · subst none nothing
        exact List.prefix_rfl
      · rw [ofBody, ofBody, if_neg (by simp [none]), if_pos (by simp [dot, nothing]), dot, none]
        exact ⟨'/' :: ("/".intercalate long).toList, by simp⟩
    · have some_part : long ≠ [] := fun nothing => none (by simpa [nothing] using begins)
      rw [ofBody, ofBody, if_pos (by simp [dot, none]), if_pos (by simp [dot, some_part]),
        String.toList_append, String.toList_append, List.prefix_append_right_inj]
      exact inner
  · rw [ofBody, ofBody, if_neg (by simp [dot]), if_neg (by simp [dot]),
      String.toList_append, String.toList_append, List.prefix_append_right_inj]
    exact inner

/-- The parts of the path with a start and a body are those of the body, behind idle
ones. -/
theorem parts_ofBody {start : String} (idle : start = "/" ∨ start = "." ∨ start = "")
    {body : List String} (some_part : body ≠ []) (whole : ∀ part ∈ body, '/' ∉ part.toList) :
    ∃ lead, (∀ part ∈ lead, isIdle part) ∧ (ofBody start body).parts = lead ++ body := by
  have inner := parts_intercalate some_part whole
  rcases idle with rfl | rfl | rfl
  · refine ⟨[""], by decide, ?_⟩
    rw [ofBody, if_neg (by simp), show "/" ++ "/".intercalate body =
      "" ++ "/" ++ "/".intercalate body by simp, parts_append_slash, inner]
    rfl
  · refine ⟨["."], by decide, ?_⟩
    rw [ofBody, if_pos (by simp [some_part]), show "./" ++ "/".intercalate body =
      "." ++ "/" ++ "/".intercalate body by simp, parts_append_slash, inner]
    rfl
  · refine ⟨[], by simp, ?_⟩
    rw [ofBody, if_neg (by simp), String.empty_append, inner, List.nil_append]

/-- The moves of the path with a start and a body are those of the body. -/
theorem moves_ofBody {start : String} (idle : start = "/" ∨ start = "." ∨ start = "")
    {body : List String} (whole : ∀ part ∈ body, '/' ∉ part.toList) :
    (ofBody start body).moves = body.filter (!isIdle ·) := by
  by_cases none : body = []
  · subst none
    rcases idle with rfl | rfl | rfl <;> decide
  · obtain ⟨lead, before, parts⟩ := parts_ofBody idle none whole
    have nothing : lead.filter (!isIdle ·) = [] :=
      List.filter_eq_nil_iff.mpr fun part member => by simp [before part member]
    rw [moves, parts, List.filter_append, nothing, List.nil_append]

theorem start_cases (path : Path) : path.start = "/" ∨ path.start = "." ∨ path.start = "" := by
  rw [start]
  split
  · exact .inl rfl
  · split
    · exact .inr (.inl rfl)
    · exact .inr (.inr rfl)

/-- The parts of a path before its last move. -/
def bodyAbove (path : Path) : List String :=
  dropIdle (dropIdle path.body).dropLast

theorem bodyAbove_isPrefix (path : Path) : path.bodyAbove <+: path.body :=
  (dropIdle_isPrefix _).trans ((List.dropLast_prefix _).trans (dropIdle_isPrefix _))

theorem dropIdle_body_of_moves_eq_nil {path : Path} (nowhere : path.moves = []) :
    dropIdle path.body = [] := by
  rw [moves_eq_filter_body, ← filter_dropIdle] at nowhere
  by_contra some_part
  have last := List.rdropWhile_last_not isIdle path.body some_part
  have idle := List.filter_eq_nil_iff.mp nowhere _ (List.getLast_mem some_part)
  exact last (by simpa using! idle)

/-- A path that makes a move has a path above it. -/
theorem parent?_of_moves {path : Path} (moving : path.moves ≠ []) :
    path.parent? = some (ofBody path.start path.bodyAbove) := by
  rw [moves_eq_filter_body, ← filter_dropIdle] at moving
  rw [parent?, bodyAbove]
  split
  · next none => exact absurd (by rw [none]; rfl) moving
  · next part others whole => rw [whole]

/-- The path above a path makes all its moves but the last, begins at the same place and
is the beginning of its text. -/
theorem of_parent?_eq_some {path above : Path} (parent : path.parent? = some above) :
    above.moves = path.moves.dropLast ∧ above.isAbsolute = path.isAbsolute ∧
      above.toList <+: path.toList := by
  by_cases moving : path.moves = []
  · -- Only a path that begins with a full stop has a path above it without a move.
    rw [parent?, dropIdle_body_of_moves_eq_nil moving] at parent
    have dot : path.start = "." := by
      by_contra other
      simp [other] at parent
    have unnamed : above = "" := by simpa [dot] using parent.symm
    have relative : path.isAbsolute = false := by
      by_contra absolute
      rw [start, if_pos (by simpa using absolute)] at dot
      simp at dot
    rw [moving, unnamed, relative]
    exact ⟨by decide, rfl, List.nil_prefix⟩
  · obtain rfl : ofBody path.start path.bodyAbove = above :=
      Option.some.inj ((parent?_of_moves moving).symm.trans parent)
    have begins : (ofBody path.start path.bodyAbove).toList <+: path.toList := by
      conv_rhs => rw [← ofBody_start_body path]
      exact ofBody_isPrefix _ path.bodyAbove_isPrefix
    refine ⟨?_, ?_, begins⟩
    · rw [moves_ofBody path.start_cases fun part member => not_slash_of_mem_parts
        (path.body_sublist.subset (path.bodyAbove_isPrefix.subset member)), bodyAbove,
        filter_dropIdle, filter_dropLast_dropIdle, moves_eq_filter_body]
    · by_cases absolute : path.isAbsolute
      · rw [absolute, start, if_pos absolute, ofBody, if_neg (by simp), isAbsolute]
        simp
      · -- The text above is empty or begins with the same character.
        rw [Bool.not_eq_true] at absolute
        rw [absolute]
        obtain ⟨rest, whole⟩ := begins
        rw [isAbsolute, ← whole] at absolute
        cases text : (ofBody path.start path.bodyAbove).toList with
        | nil => rw [isAbsolute, text]; rfl
        | cons c others => rw [isAbsolute, text]; rw [text] at absolute; exact absolute

/-! ## Ordinary paths -/

/-- The component that a move is. -/
def componentOf (move : String) : Component :=
  if move = ".." then .parent else .name move

theorem filterMap_componentOf? (path : Path) :
    path.parts.filterMap componentOf? = path.moves.map componentOf := by
  rw [moves, ← List.filterMap_eq_map, List.filterMap_filter]
  congr 1
  funext part
  by_cases idle : isIdle part
  · simp [componentOf?, idle]
  · by_cases upwards : part = ".." <;> simp_all [componentOf?, componentOf]

theorem componentOf_injective : Function.Injective componentOf := by
  intro first second same
  unfold componentOf at same
  split at same <;> split at same <;> simp_all

/-- The move that a component is, unless it only says where the path begins. -/
def Component.move? : Component → Option String
  | .root | .current => none
  | .parent => some ".."
  | .name text => some text

theorem move?_componentOf (move : String) : (componentOf move).move? = some move := by
  rw [componentOf]
  split
  · next upwards => rw [upwards]; rfl
  · rfl

theorem filterMap_move?_components (path : Path) :
    path.components.filterMap Component.move? = path.moves := by
  have counted : (path.moves.map componentOf).filterMap Component.move? = path.moves := by
    rw [List.filterMap_map, show Component.move? ∘ componentOf = some from
      funext move?_componentOf, List.filterMap_some]
  rw [components, filterMap_componentOf?]
  split
  · exact counted
  · split <;> exact counted

theorem head?_components_eq_root_iff (path : Path) :
    path.components.head? = some .root ↔ path.isAbsolute := by
  have other (move : String) : componentOf move ≠ .root := by
    rw [componentOf]
    split <;> simp
  rw [components, filterMap_componentOf?]
  split
  · next absolute => simp [absolute]
  · next relative =>
    split
    · simpa using relative
    · cases path.moves <;> simp [other, relative]

/-- Paths with the same components make the same moves and begin at the same place. -/
theorem of_components_eq {first second : Path} (same : first.components = second.components) :
    first.moves = second.moves ∧ first.isAbsolute = second.isAbsolute := by
  rw [← filterMap_move?_components, ← filterMap_move?_components, Bool.eq_iff_iff,
    ← head?_components_eq_root_iff, ← head?_components_eq_root_iff, same]
  exact ⟨rfl, Iff.rfl⟩

/-- An ordinary path is relative, does not begin with a full stop and never leads
upwards; its components are its moves. -/
theorem isOrdinary_iff {path : Path} :
    path.IsOrdinary ↔
      path.isAbsolute = false ∧ path.beginsAtCurrent = false ∧ ".." ∉ path.moves := by
  rw [IsOrdinary, components, filterMap_componentOf?]
  by_cases absolute : path.isAbsolute
  · simp [absolute, Component.isEntry]
  · by_cases current : path.beginsAtCurrent
    · simp [absolute, current, Component.isEntry]
    · have entries : (∀ component ∈ path.moves.map componentOf, component.isEntry) ↔
          ".." ∉ path.moves := by
        simp only [List.forall_mem_map, componentOf]
        constructor
        · intro each upwards
          simpa [Component.isEntry] using each _ upwards
        · intro never move member
          have other : move ≠ ".." := fun upwards => never (upwards ▸ member)
          simp [other, Component.isEntry]
      simpa [absolute, current] using entries

theorem IsOrdinary.isAbsolute {path : Path} (ordinary : path.IsOrdinary) :
    path.isAbsolute = false :=
  (isOrdinary_iff.mp ordinary).1

theorem IsOrdinary.not_up {path : Path} (ordinary : path.IsOrdinary) : ".." ∉ path.moves :=
  (isOrdinary_iff.mp ordinary).2.2

/-- An ordinary path stays ordinary with more names behind it. -/
theorem IsOrdinary.append_slash {directory below : Path} (ordinary : directory.IsOrdinary)
    (named : directory ≠ "") (never : ".." ∉ below.moves) :
    IsOrdinary (directory ++ "/" ++ below) := by
  obtain ⟨relative, current, not_up⟩ := isOrdinary_iff.mp ordinary
  refine isOrdinary_iff.mpr ⟨?_, ?_, ?_⟩
  · obtain ⟨c, others, whole⟩ :=
      List.exists_cons_of_ne_nil (mt String.toList_eq_nil_iff.mp named)
    have first : (directory ++ "/" ++ below).toList = c :: (others ++ '/' :: below.toList) := by
      simp [whole]
    rw [Path.isAbsolute, whole] at relative
    rw [Path.isAbsolute, first]
    exact relative
  · obtain ⟨first, others, whole⟩ := List.exists_cons_of_ne_nil directory.parts_ne_nil
    rw [beginsAtCurrent, whole] at current
    rw [beginsAtCurrent, parts_append_slash, whole]
    exact current
  · rw [moves_append_slash, List.mem_append, not_or]
    exact ⟨not_up, never⟩

theorem IsOrdinary.components_eq {path : Path} (ordinary : path.IsOrdinary) :
    path.components = path.moves.map componentOf := by
  obtain ⟨relative, named, _⟩ := isOrdinary_iff.mp ordinary
  rw [components, if_neg (by simp [relative]), if_neg (by simp [named]), filterMap_componentOf?]

theorem same_iff {first second : Path} : same first second ↔ first.components = second.components := by
  simp [same]

/-- Ordinary paths have the same components exactly when they make the same moves. -/
theorem IsOrdinary.same_iff {first second : Path} (ordinary : first.IsOrdinary)
    (also : second.IsOrdinary) : same first second ↔ first.moves = second.moves := by
  rw [Path.same_iff, ordinary.components_eq, also.components_eq]
  exact (List.map_injective_iff.mpr componentOf_injective).eq_iff

end AgentKit.Path
