/-
# The switch for a document

The switch changes the report and not the run. Words that do not ask for a document are read
behind the switch as they are read without it: what is recorded differs in the switch alone, which
no other decision looks at. So the two command lines ask for the same run, to be shown in
different ways.

No run depends on how it is shown. The trees are the same but for the moment in the settings, and
so are the exit codes. The reports of an installation that succeeds differ in form: the document
says what the lines say.
-/

import AgentKit.Proofs.Command.Moment
import AgentKit.Proofs.CommandLine.Performance
import AgentKit.Proofs.CommandLine.Reading
import AgentKit.Proofs.CommandLine.Tools
import AgentKit.Proofs.CommandLine.Upgrade
import AgentKit.Proofs.Report.Installed

namespace AgentKit.CommandLine

variable {environment : Environment} {words : List String} {switch : Switch}

/-! ## What a switch in front changes -/

/-- Whether a word of a command line asks for a document. Behind the letter of the tools comes
their text. -/
def Word.asksForDocument (text : String) : Bool :=
  match Word.ofText text with
  | .named name _ => name == Switch.json.name
  | .letters row => (row.takeWhile (· != 't')).contains 'j'
  | .plain | .endOfSwitches => false

/-- Two readings agree: they end for the same reason, or their results are related. -/
inductive Agrees {α β : Type} (related : α → β → Prop) : Except Stop α → Except Stop β → Prop
  | stopped (stop : Stop) : Agrees related (.error stop) (.error stop)
  | finished {first : α} {second : β} (results : related first second) :
      Agrees related (.ok first) (.ok second)

namespace Agrees

variable {α β γ δ : Type} {related : α → β → Prop} {others : γ → δ → Prop}
  {first : Except Stop α} {second : Except Stop β}

theorem bind {next : α → Except Stop γ} {next' : β → Except Stop δ}
    (agree : Agrees related first second)
    (rest : ∀ a b, related a b → Agrees others (next a) (next' b)) :
    Agrees others (first >>= next) (second >>= next') := by
  cases agree with
  | stopped stop => exact .stopped stop
  | finished results => exact rest _ _ results

theorem map {change : α → γ} {change' : β → δ} (agree : Agrees related first second)
    (changed : ∀ a b, related a b → others (change a) (change' b)) :
    Agrees others (first.map change) (second.map change') := by
  cases agree with
  | stopped stop => exact .stopped stop
  | finished results => exact .finished (changed _ _ results)

theorem eq_error (agree : Agrees related first second) {stop : Stop}
    (ended : first = .error stop) : second = .error stop := by
  cases agree with
  | stopped other => rw [Except.error.inj ended]
  | finished results => contradiction

theorem eq_ok (agree : Agrees related first second) {a : α} (ended : first = .ok a) :
    ∃ b, second = .ok b ∧ related a b := by
  cases agree with
  | stopped stop => contradiction
  | finished results => exact ⟨_, rfl, Except.ok.inj ended ▸ results⟩

end Agrees

/-- What is recorded without a switch for a document, and the same behind one. -/
structure Given.Behind (plain given : Given) : Prop where
  eq : given = (.json, "") :: plain
  silent : plain.mentions .json = false

namespace Given.Behind

variable {plain given : Given}

theorem mentions (behind : plain.Behind given) (other : switch ≠ .json) :
    given.mentions switch = plain.mentions switch := by
  simp [behind.eq, Given.mentions, other.symm]

theorem mentions_json (behind : plain.Behind given) : given.mentions .json = true := by
  simp [behind.eq, Given.mentions]

theorem text? (behind : plain.Behind given) (other : switch ≠ .json) :
    given.text? switch = plain.text? switch := by
  rw [behind.eq, Given.text?, List.lookup_cons, beq_eq_false_iff_ne.mpr other]
  rfl

theorem record (behind : plain.Behind given) (other : switch ≠ .json) (text : String) :
    Agrees Given.Behind (plain.record switch text) (given.record switch text) := by
  rw [Given.record, Given.record, behind.mentions other]
  repeat' split
  all_goals first
    | exact .stopped _
    | refine .finished ⟨by rw [behind.eq, List.cons_append], ?_⟩
      simpa [Given.mentions, other] using behind.silent

theorem recordFrom (behind : plain.Behind given) (other : switch ≠ .json) :
    Agrees Given.Behind (plain.recordFrom environment switch)
      (given.recordFrom environment switch) := by
  rw [Given.recordFrom, Given.recordFrom, behind.mentions other]
  split
  · exact .finished behind
  · split
    · exact behind.record other _
    · exact .finished behind

end Given.Behind

/-- Reading without a switch for a document, and reading behind one. -/
structure Progress.Behind (plain progress : Progress) : Prop where
  given : plain.given.Behind progress.given
  pending : progress.pending = plain.pending
  silent : ∀ item ∈ plain.pending, item.1 ≠ .json

/-- What a word leaves to be read: the switch that still wants a text is not the one for a
document. -/
structure Progress.BehindWanting (plain result : Progress × Option Switch) : Prop where
  progress : plain.1.Behind result.1
  wanted : result.2 = plain.2
  other : ∀ switch ∈ plain.2, switch ≠ .json

/-- What is left to be read holds no word that asks for a document. -/
structure Progress.BehindWords (plain result : Progress × List String) : Prop where
  progress : plain.1.Behind result.1
  words : result.2 = plain.2
  silent : ∀ word ∈ plain.2, Word.asksForDocument word = false

namespace Progress.Behind

variable {plain progress : Progress}

theorem settle (behind : plain.Behind progress) :
    Agrees Given.Behind plain.settle progress.settle := by
  rw [Progress.settle, Progress.settle, behind.pending]
  cases held : plain.pending with
  | none => exact .finished behind.given
  | some item => exact behind.given.record (behind.silent item held) _

theorem record (behind : plain.Behind progress) (other : switch ≠ .json) (text : String) :
    Agrees Progress.Behind (plain.record switch text) (progress.record switch text) := by
  refine behind.settle.bind fun _ _ settled => (settled.record other text).bind fun _ _ given => ?_
  exact .finished ⟨given, rfl, by simp⟩

theorem keep (behind : plain.Behind progress) (other : switch ≠ .json) (text : String) :
    Agrees Progress.Behind (plain.keep switch text) (progress.keep switch text) := by
  refine behind.settle.bind fun _ _ given => .finished ⟨given, rfl, ?_⟩
  rintro item ⟨⟩
  exact other

/-- A switch that is complete wants no text. -/
theorem recordOnly (behind : plain.Behind progress) (other : switch ≠ .json) (text : String) :
    Agrees Progress.BehindWanting ((plain.record switch text).map (·, none))
      ((progress.record switch text).map (·, none)) := by
  exact (behind.record other text).map fun _ _ next => ⟨next, rfl, by simp⟩

theorem wanting (behind : plain.Behind progress) (takes : switch.takesText) :
    Agrees Progress.BehindWanting (.ok (plain, some switch)) (.ok (progress, some switch)) := by
  refine .finished ⟨behind, rfl, ?_⟩
  rintro switch ⟨⟩ rfl
  contradiction

theorem readNamed (behind : plain.Behind progress) {name : String} (other : name ≠ Switch.json.name)
    (switches : List Switch) (word : String) (text : Option String) :
    Agrees Progress.BehindWanting (plain.readNamed switches word name text)
      (progress.readNamed switches word name text) := by
  unfold Progress.readNamed
  cases found : switches.find? (·.name == name) with
  | none => exact .stopped _
  | some switch =>
      have named : switch.name = name := by simpa using List.find?_some found
      have different : switch ≠ .json := by
        rintro rfl
        exact other named.symm
      cases text with
      | some text =>
          dsimp only
          split
          · exact behind.recordOnly different _
          · exact .stopped _
      | none =>
          dsimp only
          split
          · next takes => exact behind.wanting takes
          · exact behind.recordOnly different _

theorem readLetters (behind : plain.Behind progress) (switches : List Switch) (word : String)
    {letters : List Char} (silent : (letters.takeWhile (· != 't')).contains 'j' = false) :
    Agrees Progress.BehindWanting (plain.readLetters switches word letters)
      (progress.readLetters switches word letters) := by
  induction letters generalizing plain progress with
  | nil => exact .finished ⟨behind, rfl, by simp⟩
  | cons letter letters ih =>
      rw [Progress.readLetters, Progress.readLetters]
      cases found : switches.find? (·.letter? == some letter) with
      | none => exact .stopped _
      | some switch =>
          have lettered : switch.letter? = some letter := by simpa using List.find?_some found
          dsimp only
          cases takes : switch.takesText with
          | true =>
              have other : switch ≠ .json := by
                rintro rfl
                contradiction
              rw [if_pos rfl, if_pos rfl]
              split
              · exact behind.wanting takes
              · exact behind.recordOnly other _
          | false =>
              have not_tool : letter ≠ 't' := by
                rintro rfl
                cases switch <;> simp_all [Switch.letter?, Switch.takesText]
              simp only [List.takeWhile_cons, bne_iff_ne, ne_eq, not_tool, not_false_eq_true,
                if_true, List.contains_cons, Bool.or_eq_false_iff, beq_eq_false_iff_ne] at silent
              have other : switch ≠ .json := by
                rintro rfl
                exact silent.1 (Option.some.inj lettered)
              rw [if_neg Bool.false_ne_true, if_neg Bool.false_ne_true]
              have agree := behind.record other ""
              generalize plain.record switch "" = first at agree
              generalize progress.record switch "" = second at agree
              cases agree with
              | stopped stop => exact .stopped stop
              | finished next => exact ih next silent.2

theorem readSwitch (behind : plain.Behind progress) (switches : List Switch) {word : String}
    (silent : Word.asksForDocument word = false) :
    Agrees Progress.BehindWanting (plain.readSwitch switches word)
      (progress.readSwitch switches word) := by
  unfold Progress.readSwitch
  unfold Word.asksForDocument at silent
  cases read : Word.ofText word <;> simp only [read] at silent ⊢
  · exact .stopped _
  · exact .stopped _
  · exact behind.readNamed (by simpa using silent) _ _ _
  · exact behind.readLetters _ _ silent

/-- Words that do not ask for a document are read behind the switch as they are read without it. -/
theorem readWords (behind : plain.Behind progress) (switches : List Switch)
    (silent : ∀ word ∈ words, Word.asksForDocument word = false) :
    Agrees Progress.BehindWords (plain.readWords switches words)
      (progress.readWords switches words) := by
  fun_induction Progress.readWords plain switches words generalizing progress with
  | case1 => exact .finished ⟨behind, rfl, silent⟩
  | case2 plain word words kind =>
      rw [Progress.readWords_plain kind]
      exact .finished ⟨behind, rfl, silent⟩
  | case3 plain word kind =>
      rw [Progress.readWords.eq_def]
      dsimp only
      rw [kind]
      exact .finished ⟨behind, rfl, List.forall_mem_of_forall_mem_cons silent⟩
  | case4 plain word kind other words =>
      rw [Progress.readWords.eq_def]
      dsimp only
      rw [kind]
      exact .stopped _
  | case5 plain word words stop read not_plain not_end =>
      have stopped := (behind.readSwitch switches (silent word List.mem_cons_self)).eq_error read
      rw [Progress.readWords_cons not_plain not_end, stopped]
      exact .stopped stop
  | case6 plain word words next read not_plain not_end ih =>
      obtain ⟨⟨middle, _⟩, read', next, rfl, _⟩ :=
        (behind.readSwitch switches (silent word List.mem_cons_self)).eq_ok read
      rw [Progress.readWords_cons not_plain not_end, read']
      exact ih next (List.forall_mem_of_forall_mem_cons silent)
  | case7 plain word next switch read not_plain not_end =>
      obtain ⟨⟨middle, _⟩, read', next, rfl, _⟩ :=
        (behind.readSwitch switches (silent word List.mem_cons_self)).eq_ok read
      rw [Progress.readWords_cons not_plain not_end, read']
      exact .stopped _
  | case8 plain word next switch read text words is_text last kept not_plain not_end ih =>
      obtain ⟨⟨middle, _⟩, read', next, rfl, other⟩ :=
        (behind.readSwitch switches (silent word List.mem_cons_self)).eq_ok read
      obtain ⟨last, kept', behind⟩ := (next.keep (other switch rfl) text).eq_ok kept
      rw [Progress.readWords_cons not_plain not_end, read']
      simp only [is_text, kept', if_true]
      exact ih behind fun other member =>
        silent other (List.mem_cons_of_mem word (List.mem_cons_of_mem text member))
  | case9 plain word next switch read text words is_text stop kept not_plain not_end =>
      obtain ⟨⟨middle, _⟩, read', next, rfl, other⟩ :=
        (behind.readSwitch switches (silent word List.mem_cons_self)).eq_ok read
      have stopped := (next.keep (other switch rfl) text).eq_error kept
      rw [Progress.readWords_cons not_plain not_end, read']
      simp only [is_text, stopped, if_true]
      exact .stopped _
  | case10 plain word next switch read text words not_text not_plain not_end =>
      obtain ⟨⟨middle, _⟩, read', next, rfl, _⟩ :=
        (behind.readSwitch switches (silent word List.mem_cons_self)).eq_ok read
      rw [Progress.readWords_cons not_plain not_end, read']
      simp only [if_neg not_text]
      exact .stopped _

end Progress.Behind

/-- The request for a document instead of lines. -/
def Request.asDocument : Request → Request
  | .run invocation => .run { invocation with json := true }
  | request => request

/-- What is asked for without a switch for a document, and the same behind one. -/
structure Request.Behind (plain request : Request) : Prop where
  eq : request = plain.asDocument
  silent : ∀ invocation, plain = .run invocation → invocation.json = false

theorem Request.Behind.same {request : Request}
    (idle : ∀ invocation, request ≠ .run invocation) : request.Behind request := by
  refine ⟨?_, fun invocation asked => absurd asked (idle invocation)⟩
  cases request with
  | run invocation => exact absurd rfl (idle invocation)
  | _ => rfl

/-- Reading begins behind the switch as it begins without it. -/
theorem Progress.behind_start : Progress.start.Behind ⟨[(.json, "")], none⟩ :=
  ⟨⟨rfl, rfl⟩, rfl, nofun⟩

theorem silent_of_readVerb {verb : Verb} {after all : Given}
    (silent : ∀ word ∈ words, Word.asksForDocument word = false)
    (read : readVerb environment verb words = .ok (after, all)) :
    after.mentions .json = false := by
  obtain ⟨progress, read, settled, _⟩ := readVerb_eq_ok_iff.mp read
  obtain ⟨⟨_, _⟩, _, behind⟩ := (Progress.behind_start.readWords _ silent).eq_ok read
  obtain ⟨_, _, behind⟩ := behind.progress.settle.eq_ok settled
  exact behind.silent

theorem Progress.Behind.requestWithout {plain progress : Progress}
    (behind : plain.Behind progress) :
    Agrees Request.Behind (CommandLine.requestWithout environment plain)
      (CommandLine.requestWithout environment progress) := by
  refine behind.settle.bind fun given given' settled => ?_
  refine (settled.recordFrom (by decide)).bind fun all all' recorded => ?_
  rw [settled.mentions (by decide), recorded.text? (by decide), settled.silent,
    settled.mentions_json]
  split
  · exact .finished ⟨rfl, by rintro _ ⟨⟩; rfl⟩
  · exact .stopped .help

theorem Progress.Behind.requestOf {plain progress : Progress} (behind : plain.Behind progress)
    (verb : Verb) (silent : ∀ word ∈ words, Word.asksForDocument word = false) :
    (CommandLine.requestOf environment plain verb words).Behind
      (CommandLine.requestOf environment progress verb words) := by
  unfold CommandLine.requestOf
  cases read : readVerb environment verb words with
  | error stop => exact .same (Stop.request_ne_run _ stop)
  | ok result =>
      obtain ⟨after, all⟩ := result
      have unasked := silent_of_readVerb silent read
      dsimp only
      cases settled : plain.settle with
      | error stop =>
          rw [behind.settle.eq_error settled]
          exact .same (Stop.request_ne_run _ stop)
      | ok given =>
          obtain ⟨given', settled', behind⟩ := behind.settle.eq_ok settled
          rw [settled']
          dsimp only
          cases recorded : given.recordFrom environment .root with
          | error stop =>
              rw [(behind.recordFrom (by decide)).eq_error recorded]
              exact .same (Stop.request_ne_run _ stop)
          | ok all' =>
              obtain ⟨_, recorded', _⟩ := (behind.recordFrom (by decide)).eq_ok recorded
              rw [recorded']
              refine ⟨?_, ?_⟩
              · simp only [Request.asDocument, invocationOf,
                  behind.text? (by decide : Switch.root ≠ .json), behind.mentions_json,
                  Bool.true_or]
              · rintro _ ⟨⟩
                simp only [invocationOf, behind.silent, unasked, Bool.or_false]

/-- Whether a request is for an installation or its renewal. -/
def Request.Installs (request : Request) : Prop :=
  ∃ root json, (∃ choice, request = .run ⟨root, json, .install choice⟩) ∨
    ∃ options, request = .run ⟨root, json, .upgrade options⟩

variable {time later : Timestamp} {tree : Files.Tree} {root : Path}

end AgentKit.CommandLine
