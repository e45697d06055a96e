/-
# Documents under construction

A document is a list of lines. The steps below append lines, so a renderer is a
chain of steps from the empty document. A heading with bullets disappears when
there are no bullets, and empty lines never double, so renderers can describe
every part of a document unconditionally.
-/

import AgentKit.Text.Blank
import AgentKit.Text.Lines

namespace AgentKit

/-- A document under construction: its lines so far. A line may itself contain
line breaks when it was appended with them. -/
structure Document where
  lines : List String
  deriving DecidableEq, Repr

namespace Document

/-- The document without lines. -/
def empty : Document := ⟨[]⟩

/-- Append several lines. -/
def append (document : Document) (lines : List String) : Document :=
  ⟨document.lines ++ lines⟩

/-- Append one line as it is given. -/
def line (document : Document) (text : String) : Document :=
  document.append [text]

/-- Separate what follows from what is there by an empty line. Nothing happens
at the start of a document or after an empty line. -/
def blank (document : Document) : Document :=
  match document.lines.getLast? with
  | none => document
  | some last => if last.isEmpty then document else document.line ""

/-- Append a heading of a given level. -/
def heading (document : Document) (level : Nat) (title : String) : Document :=
  document.line (String.ofList (List.replicate level '#') ++ " " ++ title)

/-- Append the lines of a text without its surrounding white space. -/
def block (document : Document) (text : String) : Document :=
  document.append (Text.linesOf (Text.trimmed text))

/-- Append one bullet for every item. -/
def bullets (document : Document) (items : List String) : Document :=
  document.append (items.map ("- " ++ ·))

/-- Append a title, one bullet for every item and an empty line. Without items
nothing is appended. -/
def bulletSection (document : Document) (title : String) (items : List String) : Document :=
  if items.isEmpty then document
  else ((document.line title).bullets items).blank

/-- Append a block of fields between two lines of three hyphens. The values are
written as they are given. -/
def frontmatter (document : Document) (fields : List (String × String)) : Document :=
  document.append (["---"] ++ fields.map (fun (key, value) => key ++ ": " ++ value) ++ ["---"])

/-- Remove the line feeds at the end of a text. -/
def dropFinalLineFeeds (cs : List Char) : List Char :=
  (cs.reverse.dropWhile (· == '\n')).reverse

/-- The text of a document: its lines, and exactly one line feed at the end. -/
def render (document : Document) : String :=
  String.ofList (dropFinalLineFeeds ("\n".intercalate document.lines).toList ++ ['\n'])

end Document

end AgentKit
