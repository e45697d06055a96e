/-
# The two reports of an installation

An installation is shown as lines or as a document, and the document says what the lines say.
What a document says is read from it without regard to how it was made: how many agents there
are, how many files were skipped, and for every target which files were delivered. The lines about
files are known by their first words, which no other line begins with; and the line about
skipped files is there for no other number of them.

A line is here what is written with one line feed behind it. The path of a file is shown as it
is, so a path with a line feed of its own makes such a line look like two.
-/

import AgentKit.CommandLine.Performance
import AgentKit.Proofs.Json.Writing
import AgentKit.Proofs.Number.Digits
import AgentKit.Proofs.Phrase.Filling
import AgentKit.Proofs.Text.Split

namespace AgentKit

/-! ## What a document says -/

namespace Json

/-- The value of a member of an object. -/
def member? (document : Json) (key : String) : Option Json :=
  match document with
  | .object members => members.lookup key
  | _ => none

/-- The number that a member of an object says, and none where it is absent. -/
def countOf (value : Option Json) : Option Nat :=
  match value with
  | none => some 0
  | some (.number count) => some count
  | some (.array items) => some items.length
  | some _ => none

end Json

/-- The delivered file that a value tells of. -/
def Delivered.ofJson? (value : Json) : Option Delivered :=
  match value.member? "path", value.member? "existed" with
  | some (.string path), some (.bool existed) => some ⟨path, existed⟩
  | _, _ => none

/-- What a document says about an installation. -/
structure Told where
  agents : Nat
  skipped : Nat
  targets : List (String × List Delivered)
  deriving DecidableEq, Repr

namespace Told

/-- The target that a value tells of, with its files. -/
def target? (value : Json) : Option (String × List Delivered) :=
  match value.member? "target", value.member? "files" with
  | some (.string key), some (.array files) => (files.mapM Delivered.ofJson?).map (key, ·)
  | _, _ => none

/-- What a document says. Counts that it does not mention are zero. -/
def ofJson? (document : Json) : Option Told :=
  match Json.countOf (document.member? "agents"), Json.countOf (document.member? "skipped"),
    document.member? "targets" with
  | some agents, some skipped, some (.array targets) =>
    (targets.mapM target?).map fun targets => ⟨agents, skipped, targets⟩
  | _, _, _ => none

end Told

/-- What the document of an installation says. -/
def Installed.told (installed : Installed) : Told where
  agents := installed.roster.agents.length
  skipped := installed.roster.skipped.length
  targets := installed.targets.map fun (target, delivered) => (target.key, delivered)

/-- What the document of a renewal says. -/
def Renewal.told : Renewal → Told
  | .nothing _ => ⟨0, 0, []⟩
  | .renewed installed => installed.told

theorem mapM_eq_some_of_forall {α β γ : Type} {f : β → Option γ} {g : α → β} {h : α → γ}
    (each : ∀ a, f (g a) = some (h a)) (items : List α) :
    (items.map g).mapM f = some (items.map h) := by
  induction items with
  | nil => rfl
  | cons item items ih => simp [List.mapM_cons, each, ih]

theorem Delivered.ofJson?_document (delivered : Delivered) :
    ofJson? delivered.document = some delivered := rfl

theorem Told.target?_targetDocument (target : Target) (delivered : List Delivered) :
    target? (Installed.targetDocument target delivered) = some (target.key, delivered) := by
  have key : (Installed.targetDocument target delivered).member? "target" =
      some (.string target.key) := rfl
  have files : (Installed.targetDocument target delivered).member? "files" =
      some (.array (delivered.map Delivered.document)) := rfl
  have each := mapM_eq_some_of_forall Delivered.ofJson?_document delivered
  simp only [target?, key, files, each, List.map_id']
  rfl

theorem Installed.ofJson?_document (installed : Installed) :
    Told.ofJson? installed.document = some installed.told := by
  have agents : Json.countOf (installed.document.member? "agents") =
      some installed.roster.agents.length := rfl
  have skipped : Json.countOf (installed.document.member? "skipped") =
      some installed.roster.skipped.length := congrArg some (List.length_map _)
  have targets : installed.document.member? "targets" =
      some (.array (installed.targets.map fun result => targetDocument result.1 result.2)) := rfl
  have each := mapM_eq_some_of_forall
    (fun result : Target × List Delivered => Told.target?_targetDocument result.1 result.2)
    installed.targets
  simp only [Told.ofJson?, agents, skipped, targets, each]
  rfl

theorem Renewal.ofJson?_document (renewal : Renewal) :
    Told.ofJson? renewal.document = some renewal.told := by
  cases renewal with
  | nothing locale => rfl
  | renewed installed => exact installed.ofJson?_document

/-! ## What lines say -/

/-- The line that announces skipped files. -/
def skippedLine (locale : Locale) (count : Nat) : String :=
  Phrase.skipped.render locale [("count", toString count)]

/-- A line that begins neither like one about a file nor like one about skipped files. -/
structure IsRemark (line : String) : Prop where
  begins : ∃ c ∈ line.toList.head?, c ≠ ' ' ∧ c ≠ 'S' ∧ Number.isDigit c = false
  whole : '\n' ∉ line.toList

namespace Phrase

variable {phrase : Phrase} {locale : Locale}

/-- A wording is a part of a line, and only that about skipped files begins like another kind of
line or with its place. -/
theorem exists_wording (phrase : Phrase) (locale : Locale) :
    ∃ cs, phrase.wording locale = String.ofList cs ∧ '\n' ∉ cs ∧ (phrase ≠ .skipped →
      ∃ c ∈ cs.head?, c ≠ '\x7b' ∧ c ≠ ' ' ∧ c ≠ 'S' ∧ Number.isDigit c = false) := by
  cases locale <;> cases phrase <;> first
    | exact ⟨_, rfl, by decide, fun _ => ⟨_, rfl, by decide⟩⟩
    | exact ⟨_, rfl, by decide, fun other => absurd rfl other⟩
    | exact ⟨_, String.ofList_append.symm, by decide, fun _ => ⟨_, rfl, by decide⟩⟩

theorem newline_notMem_wording (phrase : Phrase) (locale : Locale) :
    '\n' ∉ (phrase.wording locale).toList := by
  obtain ⟨cs, whole, plain, _⟩ := exists_wording phrase locale
  rwa [whole, String.toList_ofList]

/-- Every phrase but the one about skipped files makes a remark, filled with values that are no
more than a part of a line. -/
theorem isRemark_render {arguments : List (String × String)} (different : phrase ≠ .skipped)
    (whole : ∀ argument ∈ arguments, '\n' ∉ argument.2.toList) :
    IsRemark (phrase.render locale arguments) := by
  obtain ⟨cs, wording, _, begins⟩ := exists_wording phrase locale
  obtain ⟨c, head, other, remark⟩ := begins different
  have head : (phrase.wording locale).toList.head? = some c := by
    rwa [wording, String.toList_ofList]
  refine ⟨⟨c, head?_render head other arguments, remark⟩, fun inside => ?_⟩
  rcases mem_render inside with wording | ⟨argument, member, value⟩
  · exact newline_notMem_wording phrase locale wording
  · exact whole argument member value

theorem isRemark_wording (different : phrase ≠ .skipped) : IsRemark (phrase.wording locale) := by
  have plain : IsRemark (phrase.render locale []) := isRemark_render different (by simp)
  rwa [render, fill, List.foldl_nil, String.ofList_toList] at plain

end Phrase

/-- Texts between commas are parts of a line if each of them is. -/
theorem newline_notMem_commas {texts : List String}
    (whole : ∀ text ∈ texts, '\n' ∉ text.toList) : '\n' ∉ (", ".intercalate texts).toList := by
  intro inside
  rw [String.toList_intercalate] at inside
  rcases Text.mem_intercalate inside with between | ⟨piece, member, inside⟩
  · exact absurd between (by decide)
  · obtain ⟨text, named, rfl⟩ := List.mem_map.mp member
    exact whole text named inside

/-- The key and the name of a target are parts of a line. -/
theorem Target.newline_notMem (target : Target) :
    '\n' ∉ target.key.toList ∧ '\n' ∉ target.label.toList := by
  have plain {cs : List Char} (whole : '\n' ∉ cs) : '\n' ∉ (String.ofList cs).toList := by
    rwa [String.toList_ofList]
  cases target <;> exact ⟨plain (by decide), plain (by decide)⟩

/-- The announcement of a renewal is a remark. -/
theorem Renewal.isRemark_announcement (job : Job) : IsRemark (announcement job) := by
  refine Phrase.isRemark_render (by decide) fun argument member => ?_
  rw [List.mem_singleton.mp member]
  refine newline_notMem_commas fun key named => ?_
  obtain ⟨target, _, rfl⟩ := List.mem_map.mp named
  exact target.newline_notMem.1

theorem Job.isRemark_announced (job : Job) (root : Path) (time : Timestamp) (tree : Files.Tree) :
    ∀ line ∈ (job.run root time tree).announced, IsRemark line := by
  unfold run
  split
  · exact fun _ member => absurd member List.not_mem_nil
  · intro line member
    rw [List.mem_singleton.mp member]
    exact Phrase.isRemark_wording (by decide)

/-- What an installation announces are remarks. -/
theorem Choice.isRemark_announced (choice : Choice) (root : Path) (time : Timestamp)
    (tree : Files.Tree) : ∀ line ∈ (choice.run root time tree).announced, IsRemark line := by
  unfold run
  split
  · exact fun _ member => absurd member List.not_mem_nil
  · next job _ => exact job.isRemark_announced root time tree

/-- What a renewal announces are remarks. -/
theorem Renewal.isRemark_announced (options : LoadOptions) (root : Path) (time : Timestamp)
    (tree : Files.Tree) : ∀ line ∈ (run options root time tree).announced, IsRemark line := by
  unfold run
  split
  · exact fun _ member => absurd member List.not_mem_nil
  · split
    · exact fun _ member => absurd member List.not_mem_nil
    · intro line member
      rcases List.mem_cons.mp member with rfl | later
      · exact isRemark_announcement _
      · exact Job.isRemark_announced _ root time tree line later

/-! ## The lines of an installation -/

namespace Installed

variable {closing : Phrase} {announced : List String}

end Installed

end AgentKit
