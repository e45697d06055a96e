/-
# The frontmatter of a document

The frontmatter of a text is what stands between a first line of three hyphens and the next
such line. Whatever is appended to a document after its frontmatter leaves it in place, and a
reader finds there the fields that were put in.
-/

import AgentKit.Document
import AgentKit.Proofs.Text.Split
import AgentKit.Proofs.Yaml.FieldValues
import Mathlib.Data.List.DropRight

namespace AgentKit

/-! ## Reading frontmatter -/

/-- The line before and after frontmatter. -/
def frontmatterRule : List Char := ['-', '-', '-']

/-- The frontmatter of a text, if it has one. -/
def frontmatterOf? (text : String) : Option String :=
  match Text.splitAt '\n' text.toList with
  | first :: rest =>
    if first = frontmatterRule && rest.contains frontmatterRule then
      some (String.ofList (['\n'].intercalate (rest.takeWhile (· ≠ frontmatterRule))))
    else none
  | [] => none

/-- What the frontmatter of a text gives under a key. -/
def frontmatterValue? (text key : String) : Option Yaml.Value :=
  match (frontmatterOf? text).map Yaml.Value.ofText with
  | some (.ok (.mapping entries)) => Yaml.Value.find? entries key
  | _ => none

namespace Document

/-! ## Documents under construction -/

variable {document other : Document}

/-- A document begins with the lines of another one. -/
def Extends (document other : Document) : Prop :=
  other.lines <+: document.lines

theorem extends_append (document : Document) (lines : List String) :
    (document.append lines).Extends document :=
  List.prefix_append _ _

theorem Extends.append (ext : document.Extends other) (lines : List String) :
    (document.append lines).Extends other :=
  List.IsPrefix.trans ext (extends_append document lines)

theorem Extends.line (ext : document.Extends other) (text : String) :
    (document.line text).Extends other :=
  ext.append _

theorem Extends.heading (ext : document.Extends other) (level : Nat) (title : String) :
    (document.heading level title).Extends other :=
  ext.append _

theorem Extends.block (ext : document.Extends other) (text : String) :
    (document.block text).Extends other :=
  ext.append _

theorem Extends.blank (ext : document.Extends other) : document.blank.Extends other := by
  unfold Document.blank
  split
  · exact ext
  · split
    · exact ext
    · exact ext.line _

theorem Extends.bulletSection (ext : document.Extends other) (title : String)
    (items : List String) : (document.bulletSection title items).Extends other := by
  unfold Document.bulletSection
  split
  · exact ext
  · exact ((ext.line _).append _).blank

/-! ## Rendered documents -/

/-- What does not end in a line feed stays in place. -/
theorem dropFinalLineFeeds_append {cs : List Char} (ends : ∀ c ∈ cs.getLast?, c ≠ '\n')
    (tail : List Char) :
    dropFinalLineFeeds (cs ++ tail) = cs ++ dropFinalLineFeeds tail := by
  have stays : cs.reverse.dropWhile (· == '\n') = cs.reverse := by
    rw [List.dropWhile_eq_self_iff]
    intro filled
    have nonempty : cs ≠ [] := List.ne_nil_of_length_pos (by simpa using filled)
    have last := ends _ (List.getLast?_eq_some_getLast nonempty)
    rw [List.getElem_reverse]
    simpa [List.getLast_eq_getElem] using last
  unfold dropFinalLineFeeds
  rw [List.reverse_append, List.dropWhile_append, stays]
  cases rest : tail.reverse.dropWhile (· == '\n') with
  | nil => simp
  | cons c more => simp

theorem dropFinalLineFeeds_isPrefix (cs : List Char) : dropFinalLineFeeds cs <+: cs :=
  List.rdropWhile_prefix _ _

/-- More lines follow after a line feed. -/
theorem exists_intercalate_append {lines : List (List Char)} (filled : lines ≠ [])
    (rest : List (List Char)) :
    ∃ tail, ['\n'].intercalate (lines ++ rest) = ['\n'].intercalate lines ++ tail ∧
      ∀ c ∈ tail.head?, c = '\n' := by
  induction lines with
  | nil => contradiction
  | cons line lines ih =>
      by_cases last : lines = []
      · subst last
        cases rest with
        | nil => exact ⟨[], by simp, by simp⟩
        | cons first others =>
            refine ⟨'\n' :: ['\n'].intercalate (first :: others), ?_, by simp⟩
            simp [List.intercalate_cons_cons]
      · obtain ⟨tail, whole, begins⟩ := ih last
        refine ⟨tail, ?_, begins⟩
        rw [List.cons_append, List.intercalate_cons_of_ne_nil (by simp [last]), whole,
          List.intercalate_cons_of_ne_nil last]
        simp only [List.append_assoc]

/-- Joined lines end like the last of them. -/
theorem exists_intercalate_concat (lines : List (List Char)) (last : List Char) :
    ∃ before, ['\n'].intercalate (lines ++ [last]) = before ++ last := by
  induction lines with
  | nil => exact ⟨[], by simp⟩
  | cons line lines ih =>
      obtain ⟨before, whole⟩ := ih
      refine ⟨line ++ '\n' :: before, ?_⟩
      rw [List.cons_append, List.intercalate_cons_of_ne_nil (by simp), whole]
      simp

/-- The text of a document goes on with a line feed after the lines that it begins with. -/
theorem exists_render_of_extends (filled : other.lines ≠ [])
    (ends : ∀ c ∈ (['\n'].intercalate (other.lines.map String.toList)).getLast?, c ≠ '\n')
    (ext : document.Extends other) :
    ∃ after, document.render.toList =
      ['\n'].intercalate (other.lines.map String.toList) ++ '\n' :: after := by
  obtain ⟨rest, whole⟩ := ext
  obtain ⟨tail, text, begins⟩ :=
    exists_intercalate_append (show other.lines.map String.toList ≠ [] by simpa using filled)
      (rest.map String.toList)
  have render : document.render.toList =
      ['\n'].intercalate (other.lines.map String.toList) ++ (dropFinalLineFeeds tail ++ ['\n']) := by
    rw [Document.render, String.toList_ofList, String.toList_intercalate, ← whole, List.map_append]
    change dropFinalLineFeeds (['\n'].intercalate _) ++ ['\n'] = _
    rw [text, dropFinalLineFeeds_append ends, List.append_assoc]
  cases shape : dropFinalLineFeeds tail with
  | nil => exact ⟨[], by rw [render, shape]; rfl⟩
  | cons c more =>
      have first : tail.head? = some c := by
        obtain ⟨others, same⟩ := dropFinalLineFeeds_isPrefix tail
        rw [← same, shape]
        rfl
      obtain rfl := begins c first
      exact ⟨more ++ ['\n'], by rw [render, shape]; rfl⟩

end Document

/-! ## Fields in frontmatter -/

namespace Yaml

/-- A field as documents take it: the key and the written value. -/
def Field.pair (field : Field) : String × String :=
  (String.ofList field.key, String.ofList field.written)

/-- A field stands on one line, and no field is taken for the end of the frontmatter. -/
theorem Field.line_spec (field : Field) : '\n' ∉ field.line ∧ field.line ≠ frontmatterRule := by
  constructor
  · intro member
    exact absurd (field.isInline_of_mem_line member) (by decide)
  · intro same
    obtain ⟨c, others, shape, letter⟩ := field.isKey.exists_cons
    have hyphen : c = '-' := by
      rw [Field.line, shape, frontmatterRule] at same
      exact (List.cons.inj same).1
    rw [hyphen] at letter
    exact absurd letter (by decide)

end Yaml

open Yaml (Field linesOfFields)

/-- The lines of a text that begins with some lines between two rules. -/
theorem splitAt_of_append {lines : List (List Char)} {after : List Char} {text : String}
    (single : ∀ line ∈ lines, '\n' ∉ line)
    (whole : text.toList =
      ['\n'].intercalate (frontmatterRule :: (lines ++ [frontmatterRule])) ++ '\n' :: after) :
    Text.splitAt '\n' text.toList =
      frontmatterRule :: (lines ++ frontmatterRule :: Text.splitAt '\n' after) := by
  have each : ∀ line ∈ frontmatterRule :: (lines ++ [frontmatterRule]), '\n' ∉ line := by
    simp only [List.forall_mem_cons, List.forall_mem_append, List.not_mem_nil, false_implies,
      implies_true, and_true]
    exact ⟨by decide, single, by decide⟩
  rw [whole, Text.splitAt_append_cons, Text.splitAt_intercalate (List.cons_ne_nil _ _) each]
  simp

theorem frontmatterOf?_of_append {lines : List (List Char)} {after : List Char} {text : String}
    (proper : ∀ line ∈ lines, '\n' ∉ line ∧ line ≠ frontmatterRule)
    (whole : text.toList =
      ['\n'].intercalate (frontmatterRule :: (lines ++ [frontmatterRule])) ++ '\n' :: after) :
    frontmatterOf? text = some (String.ofList (['\n'].intercalate lines)) := by
  have cut := splitAt_of_append (fun line member => (proper line member).1) whole
  have taken : (lines ++ frontmatterRule :: Text.splitAt '\n' after).takeWhile
      (· ≠ frontmatterRule) = lines := by
    rw [List.takeWhile_append_of_pos fun line member => by simpa using (proper line member).2]
    simp
  unfold frontmatterOf?
  rw [cut]
  simp only [taken]
  simp

/-- A field as it stands in frontmatter. -/
def fieldLine (field : String × String) : List Char :=
  (field.1 ++ ": " ++ field.2).toList

/-- The text of a document with frontmatter begins with the fields between two rules. -/
theorem exists_render_of_frontmatter {document : Document} (fields : List (String × String))
    (ext : document.Extends (Document.empty.frontmatter fields)) :
    ∃ after, document.render.toList =
      ['\n'].intercalate (frontmatterRule :: (fields.map fieldLine ++ [frontmatterRule])) ++
        '\n' :: after := by
  have lines : (Document.empty.frontmatter fields).lines.map String.toList =
      frontmatterRule :: (fields.map fieldLine ++ [frontmatterRule]) := by
    simp only [Document.frontmatter, Document.empty, Document.append, List.nil_append,
      List.map_append, List.map_map]
    rfl
  have ends : ∀ c ∈ (['\n'].intercalate
      ((Document.empty.frontmatter fields).lines.map String.toList)).getLast?, c ≠ '\n' := by
    obtain ⟨before, whole⟩ :=
      Document.exists_intercalate_concat (frontmatterRule :: fields.map fieldLine) frontmatterRule
    rw [List.cons_append] at whole
    rw [lines, whole]
    simp [frontmatterRule]
  obtain ⟨after, whole⟩ := Document.exists_render_of_extends (List.cons_ne_nil _ _) ends ext
  exact ⟨after, lines ▸ whole⟩

/-- A document that begins with the frontmatter of some fields has these fields there. -/
theorem frontmatterOf?_render {document : Document} (fields : List Field)
    (ext : document.Extends (Document.empty.frontmatter (fields.map Field.pair))) :
    frontmatterOf? document.render = some (String.ofList (linesOfFields fields)) := by
  obtain ⟨after, whole⟩ := exists_render_of_frontmatter _ ext
  have lines : (fields.map Field.pair).map fieldLine = fields.map Field.line := by
    rw [List.map_map]
    apply List.map_congr_left
    intro field member
    simp [fieldLine, Field.pair, Field.line]
  rw [lines] at whole
  refine frontmatterOf?_of_append (fun line member => ?_) whole
  obtain ⟨field, -, rfl⟩ := List.mem_map.mp member
  exact field.line_spec

theorem exists_entries {fields : List Field}
    (reads : ∀ field ∈ fields, ∃ entry, field.entry = .ok entry) :
    ∃ entries, fields.mapM Field.entry = .ok entries := by
  induction fields with
  | nil => exact ⟨[], rfl⟩
  | cons field fields ih =>
      obtain ⟨⟨entry, first⟩, others⟩ := List.forall_mem_cons.mp reads
      obtain ⟨entries, rest⟩ := ih others
      exact ⟨entry :: entries, by simp [List.mapM_cons, first, rest, bind, Except.bind, pure,
        Except.pure]⟩

/-- Where the other fields are read, a reader finds under the key of the first field what its
value means, if it means anything. -/
theorem frontmatterValue?_render {document : Document} {field : Field} {fields : List Field}
    (ext : document.Extends (Document.empty.frontmatter ((field :: fields).map Field.pair)))
    (distinct : ((field :: fields).map Field.key).Nodup)
    (reads : ∀ other ∈ fields, ∃ entry, other.entry = .ok entry) :
    frontmatterValue? document.render (String.ofList field.key) =
      (Yaml.untaggedValue field.style field.value).toOption := by
  obtain ⟨entries, rest⟩ := exists_entries reads
  unfold frontmatterValue?
  rw [frontmatterOf?_render _ ext, Option.map_some, Yaml.ofText_fields _ _ distinct]
  simp only [List.mapM_cons, rest, Field.entry]
  cases Yaml.untaggedValue field.style field.value <;>
    simp [Functor.map, Except.map, bind, Except.bind, pure, Except.pure, Except.toOption,
      Yaml.Value.find?]

end AgentKit
