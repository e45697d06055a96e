/-
# Runs of commands

A run changes the file tree, announces what it is about to do, and ends with a result
or in trouble. How a run is shown is no part of it: reports are made from the data of
the run, so no choice of a report can change what a command does.
-/

import AgentKit.Failure
import AgentKit.Files.Tree
import AgentKit.Target

namespace AgentKit

/-- What a command was about when it failed. -/
inductive Task where
  | loadingSettings
  | readingRules (path : Path)
  | loadingDefinitions
  | installing (target : Target)
  | savingSettings
  deriving DecidableEq, Repr

/-- The wording of a failed task. -/
def Task.message : Task → String
  | .loadingSettings => "failed to load config"
  | .readingRules path => "failed to read rules file " ++ path
  | .loadingDefinitions => "failed to load agent definitions"
  | .installing target => "failed to install " ++ target.key
  | .savingSettings => "failed to save config"

/-- A failure, with the task during which it happened. A choice that names nothing
fails before any task. -/
structure Trouble where
  task : Option Task
  failure : Failure
  deriving DecidableEq, Repr

/-- The wording of trouble: the task, the failure and the causes behind it. -/
def Trouble.message (trouble : Trouble) : String :=
  ": ".intercalate <|
    trouble.task.toList.map Task.message ++ trouble.failure.message :: trouble.failure.causes

/-- What a run leaves: the tree, the lines that it announced before its end, and how
it ended. -/
structure Run (α : Type) where
  tree : Files.Tree
  announced : List String
  result : Except Trouble α

/-- A run that ends in trouble before it announces or changes anything. -/
def Run.refused {α : Type} (tree : Files.Tree) (trouble : Trouble) : Run α where
  tree := tree
  announced := []
  result := .error trouble

end AgentKit
