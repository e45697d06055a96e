/-
# Reading word by word

Words are read up to the first plain one. A plain word ends the reading whatever it says, so
another one in its place is found in the same way. A command line asks for a run if all of it is
understood: the words before the name of the command, those behind it, and what the environment
adds.
-/

import AgentKit.CommandLine.Request
import AgentKit.Proofs.Files.Walk

namespace AgentKit.CommandLine

open Files.Tree (bind_eq_ok_iff)

namespace Progress

variable {switches : List Switch} {words back : List String} {word : String}
  {progress final : Progress}

theorem readWords_plain (plain : Word.ofText word = .plain) (words : List String) :
    progress.readWords switches (word :: words) = .ok (progress, word :: words) := by
  rw [Progress.readWords.eq_def]
  dsimp only
  rw [plain]

/-- A word that is neither plain nor the end of the switches is read as a switch. -/
theorem readWords_cons (not_plain : Word.ofText word ≠ .plain)
    (not_end : Word.ofText word ≠ .endOfSwitches) :
    progress.readWords switches (word :: words) =
      match progress.readSwitch switches word with
      | .error stop => .error stop
      | .ok (next, none) => next.readWords switches words
      | .ok (next, some switch) =>
        match words with
        | [] => .error (.refused (.missingText switch))
        | text :: words =>
          if Word.isText text then
            match next.keep switch text with
            | .ok last => last.readWords switches words
            | .error stop => .error stop
          else .error (.refused (.missingText switch)) := by
  rw [Progress.readWords.eq_def]
  dsimp only
  split
  · exact absurd ‹_› not_plain
  · exact absurd ‹_› not_end
  · rfl

end Progress

variable {environment : Environment} {words : List String} {verb : Verb}

theorem Stop.request_ne_run (verb : Option Verb) (stop : Stop) (invocation : Invocation) :
    stop.request verb ≠ .run invocation := by
  cases stop <;> simp [Stop.request]

theorem helpAbout_ne_run (words : List String) (invocation : Invocation) :
    helpAbout words ≠ .run invocation := by
  unfold helpAbout
  repeat' split
  all_goals simp

/-- The words behind the name of a command are understood if all of them are switches with their
texts, and none is missing. -/
theorem readVerb_eq_ok_iff {given all : Given} :
    readVerb environment verb words = .ok (given, all) ↔
      ∃ progress,
        Progress.start.readWords (Switch.understoodBy (some verb)) words = .ok (progress, []) ∧
        progress.settle = .ok given ∧
        given.recordAllFrom environment (Switch.understoodBy (some verb)) = .ok all ∧
        given.complete verb = .ok () := by
  unfold readVerb
  constructor
  · intro read
    obtain ⟨⟨progress, rest⟩, found, read⟩ := bind_eq_ok_iff.mp read
    cases rest with
    | cons word rest => contradiction
    | nil =>
        obtain ⟨settled, _, read⟩ := bind_eq_ok_iff.mp read
        obtain ⟨more, _, read⟩ := bind_eq_ok_iff.mp read
        obtain ⟨⟨⟩, _, read⟩ := bind_eq_ok_iff.mp read
        obtain ⟨rfl, rfl⟩ := Prod.mk.inj (Except.ok.inj read)
        exact ⟨progress, found, ‹_›, ‹_›, ‹_›⟩
  · rintro ⟨progress, found, settled, recorded, complete⟩
    simp only [found, bind, Except.bind, settled, recorded, complete]

/-- A command line with the name of a command asks for a run if everything in it is understood. -/
theorem requestOf_eq_run_iff {before : Progress} {invocation : Invocation} :
    requestOf environment before verb words = .run invocation ↔
      ∃ after all given rooted, readVerb environment verb words = .ok (after, all) ∧
        before.settle = .ok given ∧ given.recordFrom environment .root = .ok rooted ∧
        invocationOf verb given after all = invocation := by
  unfold requestOf
  cases readVerb environment verb words with
  | error stop => simp [Stop.request_ne_run]
  | ok result =>
      obtain ⟨after, all⟩ := result
      cases before.settle with
      | error stop => simp [Stop.request_ne_run]
      | ok given =>
          cases recorded : given.recordFrom environment .root with
          | error stop => simp [recorded, Stop.request_ne_run]
          | ok rooted => simp [recorded, and_assoc]

end AgentKit.CommandLine
