/-
# The lines of a rendered document

A document is cut at every line feed, also at those inside what was appended as one line.
Rendering takes away the empty lines at the end and puts a single one there. So a list of
bullets is found again under its title: it reaches up to the first empty line, which is either
the one that closes the list or stands inside a bullet.
-/

import AgentKit.Document
import AgentKit.Proofs.Text.Split
import Mathlib.Data.List.DropRight

namespace AgentKit.Document

variable {document other opening : Document} {title : String} {items closing : List String}

/-- The lines of a document as a reader sees them. -/
def textLines (document : Document) : List (List Char) :=
  document.lines.flatMap fun line => Text.splitAt '\n' line.toList

theorem append_nil (document : Document) : document.append [] = document :=
  congrArg Document.mk (List.append_nil document.lines)

theorem append_append (document : Document) (first second : List String) :
    (document.append first).append second = document.append (first ++ second) :=
  congrArg Document.mk (List.append_assoc document.lines first second)

/-- After a line with something in it, an empty line is added. -/
theorem blank_of_getLast? {text : String} (last : document.lines.getLast? = some text)
    (filled : text ≠ "") : document.blank = document.append [""] := by
  have shown : ¬ text.isEmpty := by rwa [String.isEmpty_iff]
  rw [blank, last]
  exact if_neg shown

/-! ## Rendering -/

/-- The line feeds at the end of a text are dropped, and nothing else. -/
theorem exists_eq_append_replicate (cs : List Char) :
    ∃ count, cs = dropFinalLineFeeds cs ++ List.replicate count '\n' := by
  have dropped : dropFinalLineFeeds cs = cs.rdropWhile (· == '\n') := rfl
  refine ⟨(cs.rtakeWhile (· == '\n')).length, ?_⟩
  have feeds : cs.rtakeWhile (· == '\n') =
      List.replicate (cs.rtakeWhile (· == '\n')).length '\n' := by
    rw [List.eq_replicate_iff]
    exact ⟨rfl, fun c member => by simpa using List.mem_rtakeWhile_imp member⟩
  rw [dropped, ← feeds]
  exact List.rdropWhile_append_rtakeWhile.symm

/-- The lines of a document, joined, are what it is rendered from. -/
theorem splitAt_intercalate_lines (filled : document.lines ≠ []) :
    Text.splitAt '\n' ("\n".intercalate document.lines).toList = document.textLines := by
  have joined : ("\n".intercalate document.lines).toList =
      ['\n'].intercalate (document.lines.map String.toList) := String.toList_intercalate
  rw [joined, Text.splitAt_intercalate_eq_flatMap '\n' (by simpa using filled), List.flatMap_map]
  rfl

/-- Documents with the same lines are rendered in the same way, wherever the line feeds come
from. -/
theorem render_eq_of_textLines (filled : document.lines ≠ []) (filled' : other.lines ≠ [])
    (same : document.textLines = other.textLines) : document.render = other.render := by
  rw [← splitAt_intercalate_lines filled, ← splitAt_intercalate_lines filled'] at same
  rw [render, render, ← Text.intercalate_splitAt '\n' ("\n".intercalate document.lines).toList,
    same, Text.intercalate_splitAt]

/-- The lines of a rendered document are those of the document, apart from the empty ones at
its end. -/
theorem exists_splitAt_render (filled : document.lines ≠ []) :
    ∃ kept count, document.textLines = kept ++ List.replicate count [] ∧
      Text.splitAt '\n' document.render.toList = kept ++ [[]] := by
  obtain ⟨count, whole⟩ := exists_eq_append_replicate ("\n".intercalate document.lines).toList
  refine ⟨Text.splitAt '\n' (dropFinalLineFeeds ("\n".intercalate document.lines).toList), count,
    ?_, ?_⟩
  · rw [← Text.splitAt_append_replicate, ← whole, splitAt_intercalate_lines filled]
  · rw [render, String.toList_ofList]
    exact Text.splitAt_append_replicate '\n' _ 1

/-! ## Lists of bullets -/

/-- The line of a bullet. -/
def bullet (item : String) : List Char :=
  ("- " ++ item).toList

/-- The lines that a bullet takes. -/
def bulletLines (item : String) : List (List Char) :=
  Text.splitAt '\n' (bullet item)

theorem bullet_eq_append (item : String) : bullet item = ['-', ' '] ++ item.toList :=
  String.toList_append

theorem bullet_injective : Function.Injective bullet := by
  intro item other same
  rw [bullet_eq_append, bullet_eq_append, List.append_cancel_left_eq] at same
  exact String.toList_inj.mp same

/-- A bullet has the line feeds of its item. -/
theorem lineFeed_mem_bullet_iff {item : String} : '\n' ∈ bullet item ↔ '\n' ∈ item.toList := by
  rw [bullet_eq_append]
  simp

/-- Items without line feeds take one line each. -/
theorem flatMap_bulletLines (oneLine : ∀ item ∈ items, '\n' ∉ item.toList) :
    items.flatMap bulletLines = items.map bullet := by
  have absent : ∀ line ∈ items.map bullet, '\n' ∉ line := by
    intro line member
    obtain ⟨item, inside, rfl⟩ := List.mem_map.mp member
    rw [lineFeed_mem_bullet_iff]
    exact oneLine item inside
  rw [← Text.flatMap_splitAt_eq_self absent, List.flatMap_map]
  rfl

/-- The line of a bullet is never empty. -/
theorem bulletItem_ne_empty (item : String) : "- " ++ item ≠ "" := by
  intro empty
  have line : bullet item = [] := congrArg String.toList empty
  rw [bullet_eq_append] at line
  exact List.cons_ne_nil _ _ line

theorem lines_bulletSection (some_item : items ≠ []) :
    (opening.bulletSection title items).lines =
      opening.lines ++ title :: (items.map ("- " ++ ·) ++ [""]) := by
  have last : ((opening.line title).bullets items).lines.getLast? =
      some ("- " ++ items.getLast some_item) := by
    rw [bullets, append, List.getLast?_append_of_ne_nil _ (by simpa using some_item),
      List.getLast?_map, List.getLast?_eq_some_getLast some_item, Option.map_some]
  rw [bulletSection, if_neg (by simpa using some_item),
    blank_of_getLast? last (bulletItem_ne_empty _)]
  simp [append, bullets, line]

/-- The lines of a document with a list of bullets, before it is rendered. -/
theorem textLines_bulletSection (some_item : items ≠ []) (plain : '\n' ∉ title.toList) :
    ((opening.bulletSection title items).append closing).textLines =
      opening.textLines ++ title.toList ::
        (items.flatMap bulletLines ++ [] :: closing.flatMap (Text.splitAt '\n' ·.toList)) := by
  have empty : Text.splitAt '\n' "".toList = [[]] := rfl
  rw [textLines, append, lines_bulletSection some_item]
  simp only [List.append_assoc, List.cons_append, List.flatMap_append, List.flatMap_cons,
    List.flatMap_map, List.nil_append, Text.splitAt_eq_singleton plain, empty]
  rfl

theorem lines_bulletSection_ne_nil (opening : Document) (title : String) (closing : List String)
    (some_item : items ≠ []) :
    ((opening.bulletSection title items).append closing).lines ≠ [] := by
  rw [append, lines_bulletSection some_item]
  simp

/-- Lists of bullets that take the same lines are not told apart. -/
theorem render_bulletSection_congr {items' : List String} (opening : Document)
    (closing : List String) (some_item : items ≠ []) (some_item' : items' ≠ [])
    (plain : '\n' ∉ title.toList)
    (same : items.flatMap bulletLines = items'.flatMap bulletLines) :
    ((opening.bulletSection title items).append closing).render =
      ((opening.bulletSection title items').append closing).render := by
  apply render_eq_of_textLines
  · exact lines_bulletSection_ne_nil opening title closing some_item
  · exact lines_bulletSection_ne_nil opening title closing some_item'
  · rw [textLines_bulletSection some_item plain, textLines_bulletSection some_item' plain, same]

/-- The first stop of a text is its end, if what follows stops at once. -/
theorem takeWhile_append_of_stops {α : Type} {p : α → Bool} {before after : List α}
    (stops : ∀ x ∈ after.head?, ¬ p x) :
    (before ++ after).takeWhile p = before.takeWhile p := by
  have none_taken : after.takeWhile p = [] := by
    cases after with
    | nil => rfl
    | cons x after => exact List.takeWhile_cons_of_neg (stops x rfl)
  rw [List.takeWhile_append, none_taken, List.append_nil]
  split
  · next whole => exact ((List.takeWhile_prefix p).eq_of_length whole).symm
  · rfl

/-- What is taken away at the end does not reach back over anything else. -/
theorem exists_of_append_replicate {α : Type} {before rest kept : List α} {x y : α} {count : Nat}
    (other : x ≠ y) (whole : before ++ x :: rest = kept ++ List.replicate count y) :
    ∃ after, kept = before ++ x :: after ∧ rest = after ++ List.replicate count y := by
  have kept_back : x ∉ List.replicate count y := fun inside => other (List.eq_of_mem_replicate inside)
  rcases List.append_eq_append_iff.mp whole with ⟨more, same, tail⟩ | ⟨more, _, tail⟩
  · cases more with
    | nil =>
        rw [List.nil_append] at tail
        exact absurd (tail ▸ List.mem_cons_self) kept_back
    | cons first after =>
        obtain ⟨rfl, behind⟩ := List.cons.inj tail
        exact ⟨after, same, behind⟩
  · exact absurd (tail ▸ List.mem_append_right more List.mem_cons_self) kept_back

/-- Below the title of a list stand the lines of its bullets, up to the first empty one; and
nothing else stands there but empty lines and the closing lines. -/
theorem exists_splitAt_bulletSection (opening : Document) (closing : List String)
    (some_item : items ≠ []) (named : title ≠ "") (plain : '\n' ∉ title.toList) :
    ∃ after,
      Text.splitAt '\n' ((opening.bulletSection title items).append closing).render.toList =
        opening.textLines ++ title.toList :: after ∧
      after.takeWhile (· ≠ []) = (items.flatMap bulletLines).takeWhile (· ≠ []) ∧
      ∀ line ∈ after, line = [] ∨ line ∈ items.flatMap bulletLines ∨
        line ∈ closing.flatMap (Text.splitAt '\n' ·.toList) := by
  obtain ⟨kept, count, lines, text⟩ :=
    exists_splitAt_render (lines_bulletSection_ne_nil opening title closing some_item)
  rw [textLines_bulletSection some_item plain] at lines
  have shown : title.toList ≠ [] := by rwa [ne_eq, String.toList_eq_nil_iff]
  obtain ⟨after, rfl, rest⟩ := exists_of_append_replicate shown lines
  refine ⟨after ++ [[]], ?_, ?_, ?_⟩
  · rw [text, List.append_assoc, List.cons_append]
  · -- Both stop where the empty line behind the bullets does, if not before.
    calc (after ++ [[]]).takeWhile (· ≠ [])
      _ = after.takeWhile (· ≠ []) := takeWhile_append_of_stops (by simp)
      _ = (after ++ List.replicate count []).takeWhile (· ≠ []) :=
          (takeWhile_append_of_stops (by cases count <;> simp [List.replicate_succ])).symm
      _ = (items.flatMap bulletLines).takeWhile (· ≠ []) := by
          rw [← rest]
          exact takeWhile_append_of_stops (by simp)
  · intro line member
    rw [List.mem_append, List.mem_singleton] at member
    rcases member with inside | empty
    · have source := rest ▸ List.mem_append_left (List.replicate count []) inside
      rw [List.mem_append, List.mem_cons] at source
      rcases source with bullets | empty | closes
      · exact .inr (.inl bullets)
      · exact .inl empty
      · exact .inr (.inr closes)
    · exact .inl empty

end AgentKit.Document
