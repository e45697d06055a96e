/-
# The layout of tables

A column is as wide as its widest cell, so every cell fits into its column. The columns follow
one another at a distance of two characters, and the offset of a column is the sum of what stands
before it. In a row whose last cell ends with something else than white space, the line ends with
that cell: trimming takes away its padding only, and every cell is in its place, whole.

A cell is counted in characters and written as it is. A line feed in a cell is a character like
any other, so a row with line feeds is shown on more than one line.
-/

import AgentKit.Proofs.Text.Trimming
import AgentKit.Report.Table
import Mathlib.Algebra.GroupWithZero.Nat
import Mathlib.Order.Bounds.Basic
import Mathlib.Order.MinMax

namespace AgentKit.Table

variable {table : Table} {widths : List Nat} {cells : List String} {width k : Nat} {cell : String}
  {text : List Char}

/-! ## Widths -/

theorem getElem?_widen (widths : List Nat) (cells : List String) (k : Nat) :
    (widen widths cells)[k]? =
      widths[k]?.map fun width => max width ((cells[k]?.map String.length).getD 0) := by
  fun_induction widen widths cells generalizing k with
  | case1 cells => simp
  | case2 widths => simp
  | case3 width widths cell cells ih =>
      cases k with
      | zero => rfl
      | succ k => exact ih k

theorem length_widen (widths : List Nat) (cells : List String) :
    (widen widths cells).length = widths.length := by
  fun_induction widen widths cells with
  | case1 | case2 => rfl
  | case3 width widths cell cells ih => rw [List.length_cons, List.length_cons, ih]

/-- After some rows a column is as wide as it was, or as the widest of their cells. -/
theorem isGreatest_foldl_widen (rows : List (List String)) {start : Nat}
    (begins : widths[k]? = some start) :
    ∃ width, (rows.foldl widen widths)[k]? = some width ∧
      IsGreatest {n | n = start ∨ ∃ row ∈ rows, ∃ cell ∈ row[k]?, cell.length = n} width := by
  induction rows generalizing widths start with
  | nil => exact ⟨start, begins, .inl rfl, fun n smaller => by simp_all⟩
  | cons row rows ih =>
      have next : (widen widths row)[k]? =
          some (max start ((row[k]?.map String.length).getD 0)) := by
        rw [getElem?_widen, begins, Option.map_some]
      obtain ⟨width, found, reached, bound⟩ := ih next
      refine ⟨width, found, ?_, ?_⟩
      · rcases reached with same | ⟨other, member, cell, there, long⟩
        · rcases max_choice start ((row[k]?.map String.length).getD 0) with before | here
          · exact .inl (same.trans before)
          · cases there : row[k]? with
            | none => simp_all
            | some cell =>
                exact .inr ⟨row, List.mem_cons_self, cell, there, by simp_all⟩
        · exact .inr ⟨other, List.mem_cons_of_mem row member, cell, there, long⟩
      · rintro n (rfl | ⟨other, member, cell, there, rfl⟩)
        · exact (le_max_left _ _).trans (bound (.inl rfl))
        · rcases List.mem_cons.mp member with rfl | later
          · rw [Option.mem_def.mp there] at bound
            exact (le_max_right _ _).trans (bound (.inl rfl))
          · exact bound (.inr ⟨other, later, cell, there, rfl⟩)

theorem length_widths (table : Table) : table.widths.length = table.titles.length := by
  have kept (rows : List (List String)) (widths : List Nat) :
      (rows.foldl widen widths).length = widths.length := by
    induction rows generalizing widths with
    | nil => rfl
    | cons row rows ih => rw [List.foldl_cons, ih, length_widen]
  rw [widths, kept, List.length_map]

/-- The lengths of the cells of a column, the title among them. -/
def lengths (table : Table) (k : Nat) : Set Nat :=
  {n | ∃ row ∈ table.titles :: table.rows, ∃ cell ∈ row[k]?, cell.length = n}

/-- A column is as wide as its widest cell. -/
theorem isGreatest_lengths (column : table.widths[k]? = some width) :
    IsGreatest (table.lengths k) width := by
  have bound : k < table.titles.length := by
    rw [← length_widths]
    exact (List.getElem?_eq_some_iff.mp column).1
  have begins : (table.titles.map String.length)[k]? = some table.titles[k].length := by
    simp [bound]
  obtain ⟨width', found, greatest⟩ := isGreatest_foldl_widen table.rows begins
  obtain rfl : width' = width := Option.some.inj (found.symm.trans column)
  have same : {n | n = table.titles[k].length ∨
      ∃ row ∈ table.rows, ∃ cell ∈ row[k]?, cell.length = n} = table.lengths k := by
    ext n
    simp [lengths, bound, eq_comm]
  rwa [same] at greatest

/-! ## Rows -/

/-- Where a column begins: behind the columns before it, and two characters for each of them. -/
def offset (widths : List Nat) (k : Nat) : Nat :=
  ((widths.take k).map (· + 2)).sum

/-- No cell of a row is wider than its column. -/
def Fits (widths : List Nat) (cells : List String) : Prop :=
  ∀ (k : Nat) (cell : String), cells[k]? = some cell →
    ∃ width, widths[k]? = some width ∧ cell.length ≤ width

/-- A text shows the cells of a row in columns. -/
structure Shows (widths : List Nat) (cells : List String) (text : List Char) : Prop where
  fits : Fits widths cells
  /-- Every cell is whole and begins where its column begins. -/
  whole : ∀ (k : Nat) (cell : String), cells[k]? = some cell →
    (text.drop (offset widths k)).take cell.length = cell.toList
  /-- Outside the cells there is nothing but spaces. -/
  outside : ∀ (i : Nat) (c : Char), text[i]? = some c →
    c = ' ' ∨ ∃ (k : Nat) (cell : String), cells[k]? = some cell ∧
      offset widths k ≤ i ∧ i < offset widths k + cell.length
  /-- The text ends with something else than white space. -/
  ends : ∃ c, text.getLast? = some c ∧ ¬ Text.isBlank c

/-- Cells in columns, two spaces apart. The last cell has no spaces behind it. -/
def rowText : List Nat → List String → List Char
  | width :: widths, cell :: next :: cells =>
    cell.toList ++ List.replicate (width - cell.length + 2) ' ' ++ rowText widths (next :: cells)
  | _, cells => cells.flatMap String.toList

/-- The last cell of a row ends with something else than white space. -/
def EndsSolid (cells : List String) : Prop :=
  ∃ before last c, cells = before ++ [last] ∧ last.toList.getLast? = some c ∧ ¬ Text.isBlank c

/-- The cells of a row fit into their columns, and the last one ends with something else than
white space. -/
inductive IsPlaced : List Nat → List String → Prop where
  | last {width : Nat} {widths : List Nat} {cell : String} (fits : cell.length ≤ width)
    (solid : ∃ c, cell.toList.getLast? = some c ∧ ¬ Text.isBlank c) :
    IsPlaced (width :: widths) [cell]
  | cons {width : Nat} {widths : List Nat} {cell : String} {cells : List String}
    (fits : cell.length ≤ width) (rest : IsPlaced widths cells) :
    IsPlaced (width :: widths) (cell :: cells)

theorem IsPlaced.ne_nil (placed : IsPlaced widths cells) : cells ≠ [] := by
  cases placed <;> exact List.cons_ne_nil _ _

theorem Fits.of_cons (fits : Fits (width :: widths) (cell :: cells)) :
    cell.length ≤ width ∧ Fits widths cells := by
  obtain ⟨first, there, fits_first⟩ := fits 0 cell rfl
  obtain rfl : width = first := Option.some.inj there
  exact ⟨fits_first, fun k other found => fits (k + 1) other found⟩

theorem Fits.isPlaced (fits : Fits widths cells) (solid : EndsSolid cells) :
    IsPlaced widths cells := by
  obtain ⟨before, last, c, rfl, ends, filled⟩ := solid
  induction before generalizing widths with
  | nil =>
      obtain ⟨width, there, _⟩ := fits 0 last rfl
      cases widths with
      | nil => contradiction
      | cons first widths => exact .last fits.of_cons.1 ⟨c, ends, filled⟩
  | cons cell before ih =>
      obtain ⟨width, there, _⟩ := fits 0 cell rfl
      cases widths with
      | nil => contradiction
      | cons first widths => exact .cons fits.of_cons.1 (ih fits.of_cons.2)

theorem offset_zero (widths : List Nat) : offset widths 0 = 0 := rfl

theorem offset_succ (width : Nat) (widths : List Nat) (k : Nat) :
    offset (width :: widths) (k + 1) = width + 2 + offset widths k := rfl

theorem length_padded (fits : cell.length ≤ width) :
    (cell.toList ++ List.replicate (width - cell.length + 2) ' ').length = width + 2 := by
  rw [List.length_append, List.length_replicate, String.length_toList]
  omega

/-- The last cell of a row is shown without padding. -/
theorem Shows.last (fits : cell.length ≤ width)
    (ends : ∃ c, cell.toList.getLast? = some c ∧ ¬ Text.isBlank c) :
    Shows (width :: widths) [cell] cell.toList where
  fits k other there := by
    obtain ⟨rfl, rfl⟩ : k = 0 ∧ cell = other := by
      cases k <;> simp_all
    exact ⟨width, rfl, fits⟩
  whole k other there := by
    obtain ⟨rfl, rfl⟩ : k = 0 ∧ cell = other := by
      cases k <;> simp_all
    rw [offset_zero, List.drop_zero, ← String.length_toList, List.take_length]
  outside i c there := by
    have inside := (List.getElem?_eq_some_iff.mp there).1
    rw [String.length_toList] at inside
    exact .inr ⟨0, cell, rfl, Nat.zero_le i, by rwa [offset_zero, Nat.zero_add]⟩
  ends := ends

/-- A cell and the spaces behind it, in front of a row, move the row by the width of a column. -/
theorem Shows.cons (fits : cell.length ≤ width) (shows : Shows widths cells text) :
    Shows (width :: widths) (cell :: cells)
      (cell.toList ++ List.replicate (width - cell.length + 2) ' ' ++ text) := by
  have front := length_padded fits
  constructor
  case fits =>
    intro k other there
    cases k with
    | zero => exact ⟨width, rfl, Option.some.inj there ▸ fits⟩
    | succ k => exact shows.fits k other there
  case whole =>
    intro k other there
    cases k with
    | zero =>
        obtain rfl : cell = other := Option.some.inj there
        rw [offset_zero, List.drop_zero, List.append_assoc, ← String.length_toList, List.take_left]
    | succ k =>
        rw [offset_succ, ← front, List.drop_length_add_append]
        exact shows.whole k other there
  case outside =>
    intro i c there
    by_cases behind : width + 2 ≤ i
    · rw [List.getElem?_append_right (front ▸ behind), front] at there
      rcases shows.outside _ c there with space | ⟨k, other, found, low, high⟩
      · exact .inl space
      · exact .inr ⟨k + 1, other, found, by rw [offset_succ]; omega, by rw [offset_succ]; omega⟩
    · by_cases inside : i < cell.length
      · exact .inr ⟨0, cell, rfl, Nat.zero_le i, by rwa [offset_zero, Nat.zero_add]⟩
      · left
        rw [List.getElem?_append_left (by omega),
          List.getElem?_append_right (by rw [String.length_toList]; omega)] at there
        exact (List.mem_replicate.mp (List.mem_of_getElem? there)).2
  case ends =>
    obtain ⟨c, last, filled⟩ := shows.ends
    exact ⟨c, by rw [List.getLast?_append, last, Option.some_or], filled⟩

theorem rowText_cons (more : cells ≠ []) (width : Nat) (widths : List Nat) (cell : String) :
    rowText (width :: widths) (cell :: cells) =
      cell.toList ++ List.replicate (width - cell.length + 2) ' ' ++ rowText widths cells := by
  obtain ⟨next, cells, rfl⟩ := List.exists_cons_of_ne_nil more
  rfl

theorem rowText_singleton (widths : List Nat) (cell : String) :
    rowText widths [cell] = cell.toList := by
  cases widths <;> exact List.flatMap_singleton _ _

/-- The text of a row shows its cells. -/
theorem IsPlaced.shows (placed : IsPlaced widths cells) :
    Shows widths cells (rowText widths cells) := by
  induction placed with
  | last fits solid =>
      rw [rowText_singleton]
      exact .last fits solid
  | cons fits rest ih =>
      rw [rowText_cons rest.ne_nil]
      exact .cons fits ih

/-- The characters of a text that are no spaces are those of its cells. -/
theorem count_rowText {c : Char} (other : c ≠ ' ') (widths : List Nat) (cells : List String) :
    (rowText widths cells).count c = (cells.map fun cell => cell.toList.count c).sum := by
  have spaces (n : Nat) : (List.replicate n ' ').count c = 0 := by
    rw [List.count_replicate, if_neg (by simpa using other.symm)]
  fun_induction rowText widths cells with
  | case1 width widths cell next cells ih =>
      rw [List.count_append, List.count_append, spaces, ih, Nat.add_zero]
      rfl
  | case2 widths cells other => rw [List.count_flatMap]; rfl

/-! ## Lines -/

theorem toList_pad (cell : String) (width : Nat) :
    (pad cell width).toList = cell.toList ++ List.replicate (width - cell.length) ' ' :=
  String.toList_ofList

/-- White space behind a text that ends with something else is taken away. -/
theorem trimEnd_append_replicate {before : List Char} {c : Char} (last : before.getLast? = some c)
    (filled : ¬ Text.isBlank c) (n : Nat) :
    Text.trimEnd (before ++ List.replicate n ' ') = before := by
  obtain ⟨some_char, rfl⟩ := List.mem_getLast?_eq_getLast last
  have spaces : ∀ c ∈ List.replicate n ' ', Text.isBlank c = true := by
    intro c member
    rw [(List.mem_replicate.mp member).2]
    decide
  rw [Text.trimEnd, List.reverse_append, List.reverse_replicate,
    List.dropWhile_append_of_pos spaces]
  exact List.rdropWhile_eq_self_iff.mpr fun _ => filled

/-- Where something else than white space is left behind it, a text is kept. -/
theorem trimEnd_append {before after : List Char} (left : Text.trimEnd after ≠ []) :
    Text.trimEnd (before ++ after) = before ++ Text.trimEnd after := by
  have stays : after.reverse.dropWhile Text.isBlank ≠ [] := by
    simpa [Text.trimEnd] using left
  rw [Text.trimEnd, List.reverse_append, List.dropWhile_append, if_neg (by simpa using stays),
    List.reverse_append, List.reverse_reverse, Text.trimEnd]

/-- A row, trimmed, is its text: what is taken away are the spaces behind the last cell. -/
theorem IsPlaced.trimEnd_intercalate (placed : IsPlaced widths cells) :
    Text.trimEnd ([' ', ' '].intercalate ((List.zipWith pad cells widths).map String.toList)) =
      rowText widths cells := by
  induction placed with
  | last fits solid =>
      obtain ⟨c, ends, filled⟩ := solid
      rw [List.zipWith_cons_cons, List.zipWith_nil_left, List.map_singleton,
        List.intercalate_singleton, toList_pad, trimEnd_append_replicate ends filled,
        rowText_singleton]
  | @cons width widths cell cells fits rest ih =>
      have some_text : rowText widths cells ≠ [] := by
        obtain ⟨c, last, _⟩ := rest.shows.ends
        exact List.ne_nil_of_mem (List.mem_of_getLast? last)
      have more : (List.zipWith pad cells widths).map String.toList ≠ [] := by
        intro none_there
        rw [none_there] at ih
        exact some_text ih.symm
      rw [List.zipWith_cons_cons, List.map_cons, List.intercalate_cons_of_ne_nil more,
        trimEnd_append (ih ▸ some_text), ih, toList_pad, rowText_cons rest.ne_nil,
        List.replicate_add]
      simp only [List.append_assoc]
      rfl

/-- The line of a row. -/
theorem IsPlaced.toList_line (placed : IsPlaced widths cells) :
    (line widths cells).toList = rowText widths cells := by
  rw [line, Text.trimmedEnd, String.toList_ofList, String.toList_intercalate]
  exact placed.trimEnd_intercalate

/-- The cells of the rule fill their columns with hyphens. -/
def hyphens (widths : List Nat) : List String :=
  widths.map fun width => String.ofList (List.replicate width '-')

theorem toList_rule (widths : List Nat) :
    (rule widths).toList = rowText widths (hyphens widths) := by
  rw [rule, String.toList_intercalate]
  induction widths with
  | nil => rfl
  | cons width widths ih =>
      cases widths with
      | nil =>
          rw [hyphens, List.map_singleton, List.map_singleton, rowText_singleton,
            List.intercalate_singleton]
      | cons next widths =>
          have full : width - (String.ofList (List.replicate width '-')).length = 0 := by
            simp
          rw [hyphens, List.map_cons, List.map_cons, List.intercalate_cons_of_ne_nil (by simp), ih,
            rowText_cons (by simp), full]
          rfl

/-! ## Whole tables -/

/-- No row has more cells than there are titles, and the last cell of a row ends with something
else than white space. -/
structure IsRegular (table : Table) : Prop where
  narrow : ∀ row ∈ table.titles :: table.rows, row.length ≤ table.titles.length
  solid : ∀ row ∈ table.titles :: table.rows, EndsSolid row

variable {row : List String}

theorem IsRegular.isPlaced (regular : table.IsRegular) (member : row ∈ table.titles :: table.rows) :
    IsPlaced table.widths row := by
  refine Fits.isPlaced (fun k cell there => ?_) (regular.solid row member)
  have bound : k < table.widths.length := by
    have inside := (List.getElem?_eq_some_iff.mp there).1
    have narrow := regular.narrow row member
    rw [length_widths]
    omega
  have column := List.getElem?_eq_getElem bound
  exact ⟨_, column, (isGreatest_lengths column).2 ⟨row, member, cell, there, rfl⟩⟩

/-- The rule is a row like the others, since no column is narrower than its title. -/
theorem IsRegular.isPlaced_hyphens (regular : table.IsRegular) :
    IsPlaced table.widths (hyphens table.widths) := by
  have title := regular.isPlaced List.mem_cons_self
  have same := table.length_widths
  generalize table.widths = widths at title same
  generalize table.titles = titles at title same
  induction title with
  | @last width widths cell fits solid =>
      obtain rfl : widths = [] := by simpa using same
      obtain ⟨c, ends, _⟩ := solid
      have some_width : 0 < width := by
        have : 0 < cell.toList.length :=
          List.length_pos_of_mem (List.mem_of_getLast? ends)
        rw [String.length_toList] at this
        omega
      refine .last (by simp) ⟨'-', ?_, by decide⟩
      rw [String.toList_ofList, List.getLast?_replicate, if_neg some_width.ne']
  | cons fits rest ih => exact .cons (by simp) (ih (by simpa using same))

end AgentKit.Table
