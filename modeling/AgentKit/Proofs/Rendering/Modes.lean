/-
# What a manifest of modes says

A manifest of modes is a JSON document and one line feed behind it. It is read as one object
with one list, which has one mode for every agent, in the order of the agents. Whatever
characters the texts of an agent are made of, they are read as they are.
-/

import AgentKit.Proofs.Json.Writing
import AgentKit.Rendering.Modes

namespace AgentKit.Rendering

open Json (read_write read_write_append exists_write_object isSpace)

variable {agent : Agent} {rules : List String}

/-! ## The role definition, line by line -/

/-- The lines of a role definition: a title, an empty line and the instructions. Where there are
rules, an empty line, a heading and one line for every rule follow. -/
def roleLines (agent : Agent) : List String :=
  ["# " ++ agent.name ++ " (" ++ agent.role ++ ")", "", Text.trimmed agent.systemPrompt] ++
    if agent.rules = [] then []
    else "" :: "## Rules & Guidelines" :: agent.rules.map ("- " ++ ·)

/-- Joining lines sets a line feed in front of each line behind the first. -/
theorem intercalate_cons (line : String) (lines : List String) :
    "\n".intercalate (line :: lines) = line ++ String.join (lines.map ("\n" ++ ·)) := by
  induction lines generalizing line with
  | nil => simp
  | cons next lines ih =>
      rw [String.intercalate_cons_cons, ih, List.map_cons, String.join_cons]
      simp only [String.append_assoc]

theorem roleDefinition_eq_intercalate (agent : Agent) :
    roleDefinition agent = "\n".intercalate (roleLines agent) := by
  have bullets : (agent.rules.map ("- " ++ ·)).map ("\n" ++ ·) = agent.rules.map ("\n- " ++ ·) := by
    rw [List.map_map]
    refine List.map_congr_left fun rule _ => ?_
    exact String.append_assoc.symm
  rw [roleLines, List.cons_append, intercalate_cons, roleDefinition, modeRules]
  by_cases no_rules : agent.rules = []
  · simp only [no_rules, List.isEmpty_nil, if_true, List.append_nil, List.map_cons, List.map_nil,
      String.join_cons, String.join_nil, String.append_empty, String.append_assoc]
    rfl
  · simp only [no_rules, List.isEmpty_iff, if_false, List.map_cons, List.cons_append,
      List.nil_append, bullets, String.join_cons]
    simp only [String.append_assoc]
    rfl

/-! ## The manifest -/

/-- What is read of the mode of an agent. -/
def modeValue (agent : Agent) : Json :=
  .object
    [("slug", .string agent.slug),
     ("name", .string (agent.emoji ++ " " ++ agent.name)),
     ("roleDefinition", .string ("\n".intercalate (roleLines agent))),
     ("groups", .array
       [.string "read", .string "edit", .string "browser", .string "command", .string "mcp"])]

theorem mode_eq_modeValue (agent : Agent) : mode agent = modeValue agent := by
  rw [mode, roleDefinition_eq_intercalate]
  rfl

/-- A manifest is a JSON document and one line feed. Both the document and the manifest are read
as one object with one list, which has one mode for every agent, in the order of the agents; and
the texts of a mode are those of its agent, whatever characters they are made of. -/
theorem read_modeManifest (agents : List Agent) :
    ∃ document : String, modeManifest agents = document ++ "\n" ∧
      (∃ body, document = body ++ "\x7d") ∧
      Json.read document = some (.object [("customModes", .array (agents.map modeValue))]) ∧
      Json.read (modeManifest agents) = Json.read document := by
  have modes : agents.map mode = agents.map modeValue :=
    List.map_congr_left fun agent _ => mode_eq_modeValue agent
  have blank : ∀ c ∈ "\n".toList, isSpace c := by decide
  refine ⟨_, rfl, exists_write_object _, ?_, ?_⟩
  · rw [modes, read_write]
  · rw [modeManifest, read_write_append _ _ blank, read_write]

end AgentKit.Rendering
