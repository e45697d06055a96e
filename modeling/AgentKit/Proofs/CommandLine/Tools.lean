/-
# The tools of an installation

A command line that asks for an installation names at least one tool. What is recorded
of a command line is never forgotten, so the tools that were found when it was checked
are tools of the installation.
-/

import AgentKit.Proofs.CommandLine.Reading

namespace AgentKit

open Files.Tree (bind_eq_ok_iff)

namespace Choice

variable {tools : List String} {targets : List Target}

theorem firstMentions_ne_nil (some_target : targets ≠ []) : firstMentions targets ≠ [] := by
  cases targets with
  | nil => exact absurd rfl some_target
  | cons target others => simp [firstMentions]

/-- Some tools name some targets, if they name any. -/
theorem targetsOf_ne_nil (named : targetsOf tools = .ok targets) (some_tool : tools ≠ []) :
    targets ≠ [] := by
  unfold targetsOf at named
  split at named
  · rw [← Except.ok.inj named]
    decide
  · cases found : tools.mapM targetOf with
    | error failure =>
        rw [found] at named
        contradiction
    | ok each =>
        rw [found] at named
        rw [← Except.ok.inj named]
        apply firstMentions_ne_nil
        cases tools with
        | nil => exact absurd rfl some_tool
        | cons tool others =>
            rw [List.mapM_cons, bind_eq_ok_iff] at found
            obtain ⟨target, _, found⟩ := found
            obtain ⟨rest, _, found⟩ := bind_eq_ok_iff.mp found
            rw [← Except.ok.inj found]
            simp

end Choice

namespace CommandLine

variable {environment : Environment} {words : List String} {verb : Verb}

namespace Given

variable {given all : Given} {switch : Switch} {switches : List Switch}

theorem isPrefix_record {text : String} (recorded : given.record switch text = .ok all) :
    given <+: all := by
  unfold record at recorded
  repeat' split at recorded
  all_goals first
    | contradiction
    | exact ⟨_, Except.ok.inj recorded⟩

theorem isPrefix_recordFrom (recorded : given.recordFrom environment switch = .ok all) :
    given <+: all := by
  unfold recordFrom at recorded
  split at recorded
  · exact Except.ok.inj recorded ▸ List.prefix_rfl
  · split at recorded
    · exact isPrefix_record recorded
    · exact Except.ok.inj recorded ▸ List.prefix_rfl

/-- What the environment adds comes behind what is given. -/
theorem isPrefix_recordAllFrom (recorded : given.recordAllFrom environment switches = .ok all) :
    given <+: all := by
  induction switches generalizing given with
  | nil => exact ⟨[], by simpa [recordAllFrom] using recorded⟩
  | cons switch switches ih =>
      rw [recordAllFrom] at recorded
      split at recorded
      · next next found => exact (isPrefix_recordFrom found).trans (ih recorded)
      · contradiction

theorem texts_ne_nil_of_mentions (mentioned : given.mentions switch) (begins : given <+: all) :
    all.texts switch ≠ [] := by
  obtain ⟨item, member, same⟩ := List.any_eq_true.mp mentioned
  have inside : item ∈ all.filter (·.1 = switch) :=
    List.mem_filter.mpr ⟨begins.subset member, same⟩
  rw [texts, ne_eq, List.map_eq_nil_iff]
  exact List.ne_nil_of_mem inside

end Given

theorem tools_of_requestOf {before : Progress} {root : Option Path} {json : Bool}
    {choice : Choice}
    (asked : requestOf environment before verb words = .run ⟨root, json, .install choice⟩) :
    choice.tools ≠ [] := by
  obtain ⟨given, all, _, _, read, _, _, invoked⟩ := requestOf_eq_run_iff.mp asked
  obtain ⟨_, _, _, recorded, complete⟩ := readVerb_eq_ok_iff.mp read
  cases verb <;> simp [invocationOf, Given.command] at invoked
  obtain ⟨_, _, rfl⟩ := invoked
  refine Given.texts_ne_nil_of_mentions ?_ (Given.isPrefix_recordAllFrom recorded)
  simpa [Given.complete] using complete

/-- An installation that is asked for has at least one tool. -/
theorem tools_of_ofWords {root : Option Path} {json : Bool} {choice : Choice}
    (asked : Request.ofWords environment words = .run ⟨root, json, .install choice⟩) :
    choice.tools ≠ [] := by
  unfold Request.ofWords at asked
  split at asked
  · exact absurd asked (Stop.request_ne_run _ _ _)
  · next progress _ =>
    -- Without the name of a command there is only the upgrade.
    split at asked
    · exact absurd asked (Stop.request_ne_run _ _ _)
    · next request found =>
      subst asked
      unfold requestWithout at found
      obtain ⟨given, _, found⟩ := bind_eq_ok_iff.mp found
      obtain ⟨all, _, found⟩ := bind_eq_ok_iff.mp found
      split at found <;> simp at found
  · split at asked
    · exact absurd asked (helpAbout_ne_run _ _)
    · split at asked
      · exact tools_of_requestOf asked
      · contradiction

end CommandLine

end AgentKit
