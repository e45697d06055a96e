/-
# Rosters in columns

A roster with some agent is shown as a table of five columns, each as wide as its widest cell. In
the titles, in the rule and in the text of every agent the columns begin at the same offsets, and
every cell is there as a whole: the last one is a number, so no line ends with white space that
would be trimmed from a cell.

The text of an agent is one line unless the agent has a line feed in its slug, emoji, name or
role. A line feed counts as one character of the cell and is written as it is.
-/

import AgentKit.CommandLine.Performance
import AgentKit.Proofs.Number.Digits
import AgentKit.Proofs.Rendering.RuleList
import AgentKit.Proofs.Report.Table
import AgentKit.Proofs.Text.Split

namespace AgentKit

open CommandLine Table

/-! ## Lines of a report -/

namespace CommandLine.Output

theorem textOf_append (lines more : List String) :
    textOf (lines ++ more) = textOf lines ++ textOf more := by
  induction lines with
  | nil => simp [textOf]
  | cons line lines ih =>
      rw [textOf, textOf, List.cons_append, List.map_cons, String.join_cons, ← textOf, ih,
        List.map_cons, String.join_cons, ← textOf, String.append_assoc,
        String.append_assoc, String.append_assoc]

theorem toList_textOf_cons (line : String) (lines : List String) :
    (textOf (line :: lines)).toList = line.toList ++ '\n' :: (textOf lines).toList := by
  rw [textOf, List.map_cons, String.join_cons, String.toList_append, String.toList_append,
    List.append_assoc]
  rfl

/-- A report has a line feed behind every line, and those that the lines have in them. -/
theorem count_textOf (lines : List String) :
    (textOf lines).toList.count '\n' =
      lines.length + (lines.map (·.toList.count '\n')).sum := by
  induction lines with
  | nil => rfl
  | cons line lines ih =>
      rw [toList_textOf_cons, List.count_append, List.count_cons_self, ih, List.map_cons,
        List.sum_cons, List.length_cons]
      omega

/-- The pieces of a report are its lines, if none of them has a line feed in it. -/
theorem splitAt_textOf {lines : List String} (whole : ∀ line ∈ lines, '\n' ∉ line.toList) :
    Text.splitAt '\n' (textOf lines).toList = lines.map String.toList ++ [[]] := by
  induction lines with
  | nil => rfl
  | cons line lines ih =>
      obtain ⟨first, others⟩ := List.forall_mem_cons.mp whole
      rw [toList_textOf_cons, Text.splitAt_append_cons, Text.splitAt_eq_singleton first, ih others]
      rfl

end CommandLine.Output

variable {agent : Agent} {listing : Listing}

/-- How many line feeds an agent has in what is shown of it. -/
def Agent.lineFeeds (agent : Agent) : Nat :=
  ([agent.slug, agent.emoji, agent.name, agent.role].map (·.toList.count '\n')).sum

namespace Roster

/-! ## Rows -/

/-- The last cell of an agent is a number, whatever its texts are. -/
theorem endsSolid_row (agent : Agent) : EndsSolid (row agent) := by
  obtain ⟨c, last⟩ : ∃ c, (Nat.toDigits 10 agent.rules.length).getLast? = some c :=
    ⟨_, List.getLast?_eq_some_getLast Nat.toDigits_ne_nil⟩
  have digit : Number.isDigit c :=
    Number.isDigit_of_mem_toDigits (List.mem_of_getLast? last)
  refine ⟨[agent.slug, agent.emoji ++ " " ++ agent.name, agent.role, agent.source.key],
    toString agent.rules.length, c, rfl, by rw [Number.toList_toString, last], ?_⟩
  rw [Number.not_isBlank_of_isDigit digit]
  decide

theorem isRegular_table (roster : Roster) : roster.table.IsRegular where
  narrow row member := by
    rcases List.mem_cons.mp member with rfl | member
    · exact le_rfl
    · obtain ⟨agent, _, rfl⟩ := List.mem_map.mp member
      exact le_rfl
  solid row member := by
    rcases List.mem_cons.mp member with rfl | member
    · exact ⟨["SLUG", "NAME", "ROLE", "SOURCE"], "RULES", 'S', rfl, by decide, by decide⟩
    · obtain ⟨agent, _, rfl⟩ := List.mem_map.mp member
      exact endsSolid_row agent

theorem count_row (agent : Agent) :
    ((row agent).map fun cell => cell.toList.count '\n').sum = agent.lineFeeds := by
  have source : agent.source.key.toList.count '\n' = 0 := by
    cases agent.source <;> decide
  have rules : (toString agent.rules.length).toList.count '\n' = 0 := by
    rw [Number.toList_toString, List.count_eq_zero]
    intro inside
    exact absurd (Number.isDigit_of_mem_toDigits inside) (by decide)
  simp only [row, Agent.lineFeeds, List.map_cons, List.map_nil, List.sum_cons, List.sum_nil, source,
    rules, String.toList_append, List.count_append]
  have space : " ".toList.count '\n' = 0 := by decide
  omega

theorem count_hyphens (widths : List Nat) :
    ((hyphens widths).map fun cell => cell.toList.count '\n').sum = 0 := by
  apply List.sum_eq_zero
  intro n member
  obtain ⟨cell, inside, rfl⟩ := List.mem_map.mp member
  obtain ⟨width, _, rfl⟩ := List.mem_map.mp inside
  rw [String.toList_ofList, List.count_replicate]
  rfl

/-! ## Tables of agents -/

/-- Texts show the agents of a roster in columns of some widths, below the titles and a rule. -/
structure IsShownIn (roster : Roster) (widths : List Nat) (titles rule : String)
    (rows : List String) : Prop where
  columns : widths.length = 5
  /-- A column is as wide as its widest cell. -/
  widest : ∀ k width, widths[k]? = some width → IsGreatest (roster.table.lengths k) width
  titles : Shows widths ["SLUG", "NAME", "ROLE", "SOURCE", "RULES"] titles.toList ∧
    '\n' ∉ titles.toList
  rule : Shows widths (hyphens widths) rule.toList ∧ '\n' ∉ rule.toList
  inColumns : List.Forall₂ (fun agent text => Shows widths (row agent) text.toList)
    roster.agents rows
  /-- The line feeds of a text are those of its agent. -/
  lineFeeds : rows.map (·.toList.count '\n') = roster.agents.map Agent.lineFeeds

theorem isShownIn_lines (roster : Roster) :
    roster.IsShownIn roster.table.widths (line roster.table.widths roster.table.titles)
      (rule roster.table.widths)
      (roster.agents.map fun agent => line roster.table.widths (row agent)) := by
  have regular := roster.isRegular_table
  have of_agent {agent : Agent} (member : agent ∈ roster.agents) :
      IsPlaced roster.table.widths (row agent) :=
    regular.isPlaced (List.mem_cons_of_mem _ (List.mem_map_of_mem member))
  constructor
  case columns => exact roster.table.length_widths
  case widest => exact fun _ _ column => isGreatest_lengths column
  case titles =>
    have placed := regular.isPlaced List.mem_cons_self
    refine ⟨placed.toList_line ▸ placed.shows, ?_⟩
    rw [placed.toList_line, ← List.count_eq_zero, count_rowText (by decide)]
    rfl
  case rule =>
    rw [toList_rule]
    refine ⟨regular.isPlaced_hyphens.shows, ?_⟩
    rw [← List.count_eq_zero, count_rowText (by decide), count_hyphens]
  case inColumns =>
    rw [List.forall₂_map_right_iff, List.forall₂_same]
    exact fun agent member => (of_agent member).toList_line ▸ (of_agent member).shows
  case lineFeeds =>
    rw [List.map_map]
    refine List.map_congr_left fun agent member => ?_
    rw [Function.comp_apply, (of_agent member).toList_line, count_rowText (by decide), count_row]

variable {roster : Roster} {widths : List Nat} {titles rule : String} {rows : List String}

theorem IsShownIn.count_textOf (shown : roster.IsShownIn widths titles rule rows) :
    (Output.textOf (titles :: rule :: rows)).toList.count '\n' =
      2 + roster.agents.length + (roster.agents.map Agent.lineFeeds).sum := by
  rw [Output.count_textOf, List.map_cons, List.map_cons, List.sum_cons, List.sum_cons,
    shown.lineFeeds, List.count_eq_zero.mpr shown.titles.2, List.count_eq_zero.mpr shown.rule.2,
    List.length_cons, List.length_cons, ← shown.inColumns.length_eq]
  omega

/-- Agents without line feeds have a line each. -/
theorem IsShownIn.splitAt_textOf (shown : roster.IsShownIn widths titles rule rows)
    (whole : ∀ agent ∈ roster.agents, agent.lineFeeds = 0) :
    Text.splitAt '\n' (Output.textOf (titles :: rule :: rows)).toList =
      (titles :: rule :: rows).map String.toList ++ [[]] := by
  refine Output.splitAt_textOf (List.forall_mem_cons.mpr ⟨shown.titles.2,
    List.forall_mem_cons.mpr ⟨shown.rule.2, fun text member => ?_⟩⟩)
  have feeds : text.toList.count '\n' ∈ roster.agents.map Agent.lineFeeds :=
    shown.lineFeeds ▸ List.mem_map_of_mem member
  obtain ⟨agent, inside, same⟩ := List.mem_map.mp feeds
  exact List.count_eq_zero.mp (same.symm.trans (whole agent inside))

end Roster

/-- The listing of a roster with some agent is a table, followed by the skipped files. Its lines
are the titles, the rule and one line for every agent, and one more for every line feed that an
agent has in what is shown of it. -/
theorem Roster.shown_in_columns (listing : Listing) (some_agent : listing.roster.agents ≠ []) :
    ∃ widths titles rule rows, listing.roster.IsShownIn widths titles rule rows ∧
      (Presentation.listing.output false [] (.ok listing)).report =
        Output.textOf (titles :: rule :: rows) ++
          Output.textOf (listing.roster.skipped.map fun (file, reason) =>
            skippedLine file reason) ∧
      (Output.textOf (titles :: rule :: rows)).toList.count '\n' =
        2 + listing.roster.agents.length + (listing.roster.agents.map Agent.lineFeeds).sum ∧
      ((∀ agent ∈ listing.roster.agents, agent.lineFeeds = 0) →
        Text.splitAt '\n' (Output.textOf (titles :: rule :: rows)).toList =
          (titles :: rule :: rows).map String.toList ++ [[]]) := by
  have shown := isShownIn_lines listing.roster
  refine ⟨_, _, _, _, shown, ?_, shown.count_textOf, shown.splitAt_textOf⟩
  have lines : (agents listing.roster).isEmpty = false := by
    rw [List.isEmpty_eq_false_iff]
    exact some_agent
  have shows : (Presentation.listing.output false [] (.ok listing)).report =
      Output.textOf (listing.roster.lines listing.locale) := rfl
  rw [shows, Roster.lines, lines, ← Output.textOf_append, Table.lines]
  simp only [Bool.false_eq_true, if_false, Roster.table, List.map_map]
  rfl

/-- Two agents without line feeds take four lines. -/
theorem Roster.shown_in_columns_twins :
    Target.twinRequest.load Target.twinTree = .ok Target.twinRoster ∧
      agents Target.twinRoster ≠ [] ∧
      ∃ widths titles rule rows, Target.twinRoster.IsShownIn widths titles rule rows ∧
        (Presentation.listing.output false [] (.ok ⟨.english, Target.twinRoster⟩)).report =
          Output.textOf (titles :: rule :: rows) ∧
        Text.splitAt '\n' (Output.textOf (titles :: rule :: rows)).toList =
          (titles :: rule :: rows).map String.toList ++ [[]] ∧
        (Output.textOf (titles :: rule :: rows)).toList.count '\n' = 4 := by
  have some_agent : agents Target.twinRoster ≠ [] := by decide
  obtain ⟨widths, titles, rule, rows, shown, report, feeds, whole⟩ :=
    shown_in_columns ⟨.english, Target.twinRoster⟩ some_agent
  refine ⟨Target.load_twinTree_eq, some_agent, widths, titles, rule, rows, shown, ?_,
    whole (by decide), feeds.trans (by decide)⟩
  rw [report]
  exact String.append_empty

/-- A definition of an agent whose name has a line feed in it. -/
def brokenNameText : String :=
  "\x7bname: \"A\\nB\", role: B, systemPrompt: abcdefghij\x7d"

theorem ofText_brokenNameText :
    Yaml.Value.ofText brokenNameText =
      .ok (.mapping [(.string "name", .string "A\nB"), (.string "role", .string "B"),
        (.string "systemPrompt", .string "abcdefghij")]) := by
  cbv

/-- A single agent takes two lines below the rule, and its role is on the second one, where no
column begins. -/
theorem Roster.shown_on_two_lines :
    ∃ roster, Target.twinRequest.load (Rendering.ruledTree brokenNameText) = .ok roster ∧
      (agents roster).length = 1 ∧ skipped roster = [] ∧
      (Presentation.listing.output false [] (.ok ⟨.english, roster⟩)).report =
        "SLUG  NAME   ROLE  SOURCE   RULES\n" ++
        "----  -----  ----  -------  -----\n" ++
        "a     🤖 A\n" ++
        "B  B     default  1\n" ∧
      (Presentation.listing.output false [] (.ok ⟨.english, roster⟩)).report.toList.count '\n' ≠
        2 + (agents roster).length := by
  have composed : Target.twinRequest.compose "a.yaml" brokenNameText .default =
      .ok { Target.twin "a" with name := "A\nB" } := by
    rw [LoadRequest.compose, ofText_brokenNameText]
    rfl
  refine ⟨_, Rendering.load_ruledTree composed, rfl, rfl, ?_, ?_⟩ <;> decide +kernel

end AgentKit
