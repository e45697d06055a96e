/-
# Building documents

A document is built step by step from nothing. What a step appends depends on the document so
far in one place only, the empty line of a separation, which is left out at the start and after
an empty line. So a second separation is never seen, and a part without content leaves no trace,
whatever stands before and behind it.

A separation at the end stands in the lines of the document, but is not seen either: rendering
takes the line feeds at the end away.
-/

import AgentKit.Proofs.Document.Frontmatter
import AgentKit.Proofs.Document.Lines
import AgentKit.Proofs.Text.LineEnding
import AgentKit.Proofs.Text.Trimming

namespace AgentKit.Document

/-- A step in building a document. -/
inductive Step where
  | frontmatter (fields : List (String × String))
  | line (text : String)
  | blank
  | heading (level : Nat) (title : String)
  | block (text : String)
  | bullets (items : List String)
  | bulletSection (title : String) (items : List String)
  deriving DecidableEq, Repr

/-- Take a step in building a document. -/
def perform (document : Document) : Step → Document
  | .frontmatter fields => document.frontmatter fields
  | .line text => document.line text
  | .blank => document.blank
  | .heading level title => document.heading level title
  | .block text => document.block text
  | .bullets items => document.bullets items
  | .bulletSection title items => document.bulletSection title items

/-- The document that steps build from nothing. -/
def build (steps : List Step) : Document :=
  steps.foldl perform empty

/-- The text of the document that steps build from nothing. -/
def write (steps : List Step) : String :=
  (build steps).render

variable {document : Document} {before : List Step}

theorem build_append (before after : List Step) :
    build (before ++ after) = after.foldl perform (build before) :=
  List.foldl_append

/-- Steps that lead from a document to the same one may stand for each other there, whatever
follows. -/
theorem write_congr (steps others after : List Step)
    (same : steps.foldl perform (build before) = others.foldl perform (build before)) :
    write (before ++ steps ++ after) = write (before ++ others ++ after) := by
  rw [write, write, build_append, build_append (before ++ others), build_append, build_append, same]

/-- A step that leaves a document as it is may be left out, whatever follows. -/
theorem write_of_perform_eq_self (step : Step) (after : List Step)
    (same : (build before).perform step = build before) :
    write (before ++ [step] ++ after) = write (before ++ after) := by
  rw [write_congr [step] [] after same, List.append_nil]

/-! ## Separations -/

/-- Nothing is separated at the start of a document and after an empty line. -/
theorem blank_eq_self (ended : ∀ text ∈ document.lines.getLast?, text = "") :
    document.blank = document := by
  rw [blank]
  split
  · rfl
  · next text last => exact if_pos (String.isEmpty_iff.mpr (ended text last))

/-- A separation does nothing, or it is one more line behind another one. -/
theorem blank_cases (document : Document) :
    document.blank = document ∨ document.lines ≠ [] ∧ document.blank = document.append [""] := by
  by_cases ended : ∀ text ∈ document.lines.getLast?, text = ""
  · exact .inl (blank_eq_self ended)
  · push Not at ended
    obtain ⟨text, last, filled⟩ := ended
    refine .inr ⟨?_, blank_of_getLast? last filled⟩
    intro none_there
    simp [none_there] at last

theorem blank_blank (document : Document) : document.blank.blank = document.blank := by
  rcases blank_cases document with same | ⟨_, separated⟩
  · rw [same, same]
  · apply blank_eq_self
    simp [separated, append]

/-- An empty line at the end of a document is not seen in its text. -/
theorem render_blank (document : Document) : document.blank.render = document.render := by
  rcases blank_cases document with same | ⟨filled, separated⟩
  · rw [same]
  · have joined : "\n".intercalate (document.lines ++ [""]) =
        "\n".intercalate document.lines ++ "\n" := by
      rw [String.intercalate_append_of_ne_nil filled (by simp), String.intercalate_singleton,
        String.append_empty]
    have dropped (cs : List Char) : dropFinalLineFeeds (cs ++ ['\n']) = dropFinalLineFeeds cs :=
      List.rdropWhile_concat_pos _ cs _ rfl
    rw [separated, render, append, joined, String.toList_append]
    exact congrArg (fun cs => String.ofList (cs ++ ['\n'])) (dropped _)

/-! ## Blocks -/

/-- White space gives a block no lines. -/
theorem block_of_isBlankText {text : String} (blank : Text.isBlankText text)
    (document : Document) : document.block text = document := by
  have nothing : Text.linesOf (Text.trimmed text) = [] := by
    rw [Text.linesOf, Text.trimmed, String.toList_ofList,
      Text.trim_eq_nil_iff.mpr (List.all_eq_true.mp blank)]
    rfl
  rw [block, nothing, append_nil]

/-- A block alone is its text without the white space around it, in which lines end with line
feeds. -/
theorem render_block (text : String) :
    (empty.block text).render =
      String.ofList (Text.unifyLineEndings (Text.trim text.toList)) ++ "\n" := by
  have ends : ∀ c ∈ (Text.trim text.toList).getLast?, c ≠ '\n' := by
    rintro c last rfl
    exact (Text.isTrimmed_trim text.toList).2 '\n' last (by decide)
  have joined : ("\n".intercalate (empty.block text).lines).toList =
      Text.unifyLineEndings (Text.trim text.toList) := by
    have lines : (empty.block text).lines.map String.toList =
        Text.lines (Text.trim text.toList) := by
      simp [block, append, empty, Text.linesOf, Text.trimmed]
    rw [String.toList_intercalate, lines]
    exact Text.intercalate_lines ends
  have ends' : ∀ c ∈ (Text.unifyLineEndings (Text.trim text.toList)).getLast?, c ≠ '\n' := by
    rwa [Text.getLast?_unifyLineEndings]
  have kept := dropFinalLineFeeds_append ends' []
  rw [List.append_nil] at kept
  rw [render, joined, kept, ← String.toList_inj]
  simp [dropFinalLineFeeds]

/-! ## The text of a document -/

/-- A text ends in one line feed, and what stands before that does not end in another one. -/
theorem exists_render_eq_append (document : Document) :
    ∃ text : String, document.render = text ++ "\n" ∧ text.toList.getLast? ≠ some '\n' := by
  refine ⟨String.ofList (dropFinalLineFeeds ("\n".intercalate document.lines).toList), ?_, ?_⟩
  · rw [render, String.ofList_append]
  · intro last
    rw [String.toList_ofList] at last
    obtain ⟨filled, same⟩ := List.mem_getLast?_eq_getLast last
    exact List.rdropWhile_last_not (· == '\n') _ filled (beq_iff_eq.mpr same.symm)

/-- What holds of the text that steps build, with other steps behind them. -/
structure BuildsRegularly (before after : List Step) : Prop where
  /-- The text ends in one line feed, and what stands before that does not end in another one. -/
  ending : ∃ text : String, write before = text ++ "\n" ∧ text.toList.getLast? ≠ some '\n'
  /-- Two separations are one. -/
  blanks : write (before ++ [.blank, .blank] ++ after) = write (before ++ [.blank] ++ after)
  /-- A section without items is not there. -/
  emptySection : ∀ title,
    write (before ++ [.bulletSection title []] ++ after) = write (before ++ after)
  /-- A block of white space is not there. -/
  emptyBlock : ∀ text, Text.isBlankText text →
    write (before ++ [.block text] ++ after) = write (before ++ after)
  /-- A separation at the end is not there. -/
  finalBlank : write (before ++ [.blank]) = write before
  /-- A separation before the first line is not there. -/
  firstBlank : (build before).lines = [] →
    write (before ++ [.blank] ++ after) = write (before ++ after)
  /-- A block alone is its text, trimmed, with a line feed for each carriage return and line
  feed. -/
  block : ∀ text, write [.block text] =
    String.ofList (Text.replaceAll ['\r', '\n'] ['\n'] (Text.trim text.toList)) ++ "\n"

/-- Building is regular after any steps and before any steps. -/
theorem buildsRegularly (before after : List Step) : BuildsRegularly before after where
  ending := exists_render_eq_append (build before)
  blanks := write_congr [.blank, .blank] [.blank] after (blank_blank (build before))
  emptySection title := write_of_perform_eq_self (.bulletSection title []) after rfl
  emptyBlock text blank :=
    write_of_perform_eq_self (.block text) after (block_of_isBlankText blank (build before))
  finalBlank := by
    rw [write, build_append]
    exact render_blank (build before)
  firstBlank start := by
    apply write_of_perform_eq_self .blank after
    exact blank_eq_self (by simp [start])
  block := render_block

end AgentKit.Document
