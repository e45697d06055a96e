/-
# The value of a list of fields

The tokens of fields are those of the pairs of one block mapping. So a text of fields is a
mapping, and what is under a key is what the scalar behind it means.
-/

import AgentKit.Proofs.Text.Split
import AgentKit.Proofs.Yaml.Fields
import AgentKit.Proofs.Yaml.Mapping

namespace AgentKit.Yaml

variable {fields : List Field}

/-! ## Nodes -/

/-- The key and the value of a field as nodes, whatever stands for anchors. -/
def Field.nodes {α : Type} (field : Field) : Node α × Node α :=
  (.scalar .none .plain field.key, .scalar .none field.style field.value)

/-- What is not written is the empty plain scalar. -/
theorem Written.absent_iff {written value : List Char} {style : ScalarStyle}
    (writes : Written written style value) (unwritten : written = []) :
    style = .plain ∧ value = [] := by
  cases writes with
  | absent => exact ⟨rfl, rfl⟩
  | plain plain => exact absurd unwritten plain.filled
  | quoted quotable => contradiction

/-- A field as a pair. A value that is not written is not there. -/
def Field.toPair (field : Field) : Pair where
  key := field.key
  held := if field.written = [] then .nothing else .scalar ⟨field.style, field.value⟩

theorem Field.tokens_toPair (field : Field) : field.toPair.tokens = field.tokens := by
  simp only [Field.tokens, Pair.tokens, toPair, valueTokens]
  split <;> rfl

theorem Field.nodes_toPair {α : Type} (field : Field) :
    (field.toPair.nodes : Node α × Node α) = field.nodes := by
  simp only [Field.nodes, Pair.nodes, toPair]
  split
  · next unwritten =>
    obtain ⟨style, value⟩ := field.writes.absent_iff unwritten
    rw [style, value]
    rfl
  · rfl

/-! ## Characters -/

theorem Written.isInline_of_mem {written value : List Char} {style : ScalarStyle}
    (writes : Written written style value) {c : Char} (member : c ∈ written) : isInline c := by
  cases writes with
  | absent => contradiction
  | plain plain => exact (plain.inside c member).1
  | quoted quotable =>
      simp only [List.mem_cons, List.mem_append, List.not_mem_nil, or_false] at member
      rcases member with rfl | inside | rfl
      · rfl
      · exact isInline_of_mem_escape quotable inside
      · rfl

theorem Field.isInline_of_mem_line (field : Field) {c : Char} (member : c ∈ field.line) :
    isInline c := by
  simp only [line, List.mem_append, List.mem_cons] at member
  rcases member with inKey | rfl | rfl | inValue
  · exact (field.isKey.plain.inside c inKey).1
  · rfl
  · rfl
  · exact field.writes.isInline_of_mem inValue

/-- Fields need no preparation: they hold no forbidden character and no other line break. -/
theorem prepare_linesOfFields (fields : List Field) :
    prepare (linesOfFields fields) = .ok (linesOfFields fields) := by
  refine prepare_of_isSettled fun c member => ?_
  rcases Text.mem_intercalate member with feed | ⟨line, inLines, member⟩
  · rw [List.mem_singleton.mp feed]
    rfl
  · obtain ⟨field, -, rfl⟩ := List.mem_map.mp inLines
    exact isSettled_of_isInline (field.isInline_of_mem_line member)

/-! ## Values -/

theorem documentOf_fields (field : Field) (fields : List Field) :
    documentOf (String.ofList (linesOfFields (field :: fields))) =
      .ok (some ⟨.mapping .none ((field :: fields).map Field.nodes), []⟩) := by
  have tokens : tokensOf (linesOfFields (field :: fields)) = .ok (.blockMappingStart ::
      (((field :: fields).map Field.toPair).flatMap Pair.tokens ++ [.blockEnd])) := by
    rw [tokensOf_linesOfFields, List.flatMap_map, funext Field.tokens_toPair]
  rw [documentOf_pairs (prepare_linesOfFields (field :: fields)) tokens, List.map_map,
    show Pair.nodes ∘ Field.toPair = Field.nodes from funext Field.nodes_toPair]

theorem readAt_scalar (document : LinkedDocument) (depth : Nat) (style : ScalarStyle)
    (text : List Char) (budget : Nat) :
    readAt document depth (.scalar .none style text) budget =
      (·, budget) <$> untaggedValue style text := by
  cases depth <;>
    cases read : untaggedValue style text <;>
      simp [readAt, LinkedDocument.follow, scalarValue, Properties.none, read, bind, Except.bind,
        Functor.map, Except.map]

/-- The value of a field under its key. -/
def Field.entry (field : Field) : Except Error (Value × Value) :=
  (Value.string (String.ofList field.key), ·) <$> untaggedValue field.style field.value

theorem readAt_key (document : LinkedDocument) (depth : Nat) (field : Field) (budget : Nat) :
    readAt document depth (.scalar .none .plain field.key) budget =
      .ok (.string (String.ofList field.key), budget) := by
  rw [readAt_scalar]
  simp [untaggedValue, plainValue, field.isKey.means, Functor.map, Except.map]

theorem equals_string (first second : List Char) :
    (Value.string (String.ofList first)).equals (.string (String.ofList second)) =
      decide (first = second) := by
  rw [Value.equals, Bool.eq_iff_iff, beq_iff_eq, decide_eq_true_iff, String.ofList_inj]

/-- Distinct keys are accepted one after the other. -/
theorem readEntries_fields (document : LinkedDocument) (depth budget : Nat)
    (before : List (Value × Value)) (distinct : (fields.map Field.key).Nodup)
    (fresh : ∀ field ∈ fields,
      before.any (·.1.equals (.string (String.ofList field.key))) = false) :
    readEntries (readAt document depth) before budget (fields.map Field.nodes) =
      (fun entries => (before ++ entries, budget)) <$> fields.mapM Field.entry := by
  induction fields generalizing before with
  | nil => simp [readEntries, pure, Except.pure, Functor.map, Except.map]
  | cons field fields ih =>
      obtain ⟨other, distinct⟩ := List.nodup_cons.mp distinct
      obtain ⟨new, fresh⟩ := List.forall_mem_cons.mp fresh
      rw [List.map_cons, Field.nodes, readEntries, readAt_key]
      simp only [bind, Except.bind, new, Bool.false_eq_true, if_false, readAt_scalar,
        List.mapM_cons, Field.entry]
      cases read : untaggedValue field.style field.value with
      | error error => simp [Functor.map, Except.map]
      | ok value =>
          have fresh' : ∀ later ∈ fields,
              (before ++ [(Value.string (String.ofList field.key), value)]).any
                (·.1.equals (.string (String.ofList later.key))) = false := by
            intro later member
            have differs : field.key ≠ later.key :=
              fun same => other (same ▸ List.mem_map_of_mem member)
            simp [fresh later member, equals_string, differs]
          simp only [Functor.map, Except.map]
          rw [ih _ distinct fresh']
          cases fields.mapM Field.entry <;>
            simp [Functor.map, Except.map, pure, Except.pure]

/-- What fields write is a mapping, and what is under each key is what its value means. -/
theorem ofText_fields (field : Field) (fields : List Field)
    (distinct : ((field :: fields).map Field.key).Nodup) :
    Value.ofText (String.ofList (linesOfFields (field :: fields))) =
      .mapping <$> (field :: fields).mapM Field.entry := by
  have entries (document : LinkedDocument) (budget : Nat) :=
    readEntries_fields document 127 budget [] distinct fun _ _ => rfl
  unfold Value.ofText
  rw [documentOf_fields]
  simp only [bind, Except.bind, LinkedDocument.value, maxDepth]
  rw [readAt]
  simp only [LinkedDocument.follow, bind, Except.bind, entries]
  cases (field :: fields).mapM Field.entry <;>
    simp [Functor.map, Except.map, tagValue, Properties.none]

end AgentKit.Yaml
