/-
# Mappings of scalars and lists

A block mapping under whose keys there are scalars, lists of scalars or nothing at all is read
pair by pair. The hyphens of a list can stand below its key, so the list needs no end of its
own: it ends where a key or the end of the mapping follows. Nothing in such a mapping has an
anchor or a tag, so numbering leaves it as it is, and nothing in it can be referred to.
-/

import AgentKit.Yaml.Value.Reading

namespace AgentKit.Yaml

/-! ## Pairs -/

/-- A scalar, in the style in which it is written. -/
structure Leaf where
  style : ScalarStyle
  text : List Char

namespace Leaf

/-- The token of a scalar. -/
def token (leaf : Leaf) : Token :=
  .scalar leaf.style leaf.text

/-- The tokens of a scalar as an item of a list. -/
def itemTokens (leaf : Leaf) : List Token :=
  [.blockEntry, leaf.token]

/-- The node of a scalar, whatever stands for anchors. -/
def node {α : Type} (leaf : Leaf) : Node α :=
  .scalar .none leaf.style leaf.text

end Leaf

/-- What is under a key: nothing, a scalar or a list of scalars. -/
inductive Held where
  | nothing
  | scalar (leaf : Leaf)
  | list (items : List Leaf)

namespace Held

/-- The tokens behind the colon. -/
def tokens : Held → List Token
  | .nothing => []
  | .scalar leaf => [leaf.token]
  | .list [] => [.flowSequenceStart, .flowSequenceEnd]
  | .list items => items.flatMap Leaf.itemTokens

/-- The node under the key: an empty scalar, where there is nothing. -/
def node {α : Type} : Held → Node α
  | .nothing => .empty .none
  | .scalar leaf => leaf.node
  | .list items => .sequence .none (items.map Leaf.node)

end Held

/-- A key and what is under it. -/
structure Pair where
  key : List Char
  held : Held

namespace Pair

/-- The tokens of a pair. -/
def tokens (pair : Pair) : List Token :=
  .key :: .scalar .plain pair.key :: .value :: pair.held.tokens

/-- The nodes of a pair. -/
def nodes {α : Type} (pair : Pair) : Node α × Node α :=
  (.scalar .none .plain pair.key, pair.held.node)

end Pair

variable {handles : Handles} {fuel : Nat} {rest : List Token}

/-! ## Single nodes -/

theorem readNode_scalar (handles : Handles) (block indentless : Bool) (fuel : Nat)
    (style : ScalarStyle) (text : List Char) (rest : List Token) :
    readNode handles block indentless (fuel + 1) (.scalar style text :: rest) =
      .ok (.scalar .none style text, rest) := by
  rw [readNode]
  · rfl
  · intro name others same
    cases same

theorem readNode_blockEntry (handles : Handles) (fuel : Nat) (rest : List Token) :
    readNode handles true true (fuel + 1) (.blockEntry :: rest) =
      (do
        let (items, rest) ← readIndentlessItems handles fuel (.blockEntry :: rest)
        .ok (.sequence .none items, rest)) := by
  rw [readNode]
  · rfl
  · intro name others same
    cases same

theorem readNode_blockMapping (handles : Handles) (fuel : Nat) (rest : List Token) :
    readNode handles true false (fuel + 1) (.blockMappingStart :: rest) =
      (do
        let (entries, rest) ← readBlockEntries handles fuel rest
        .ok (.mapping .none entries, rest)) := by
  rw [readNode]
  · rfl
  · intro name others same
    cases same

/-- Brackets are an empty list. -/
theorem readNode_brackets (handles : Handles) (fuel : Nat) (rest : List Token) :
    readNode handles true true (fuel + 2) (.flowSequenceStart :: .flowSequenceEnd :: rest) =
      .ok (.sequence .none [], rest) := by
  rw [readNode]
  · rw [readProperties]
    · simp [readFlowItems, bind, Except.bind, Properties.none]
    all_goals
      intros
      simp_all
  · intro name others same
    cases same

/-! ## Lists -/

theorem flatMap_itemTokens_cons (item : Leaf) (items : List Leaf) (rest : List Token) :
    (item :: items).flatMap Leaf.itemTokens ++ rest =
      .blockEntry :: item.token :: (items.flatMap Leaf.itemTokens ++ rest) := rfl

theorem length_itemTokens (items : List Leaf) :
    (items.flatMap Leaf.itemTokens).length = 2 * items.length := by
  induction items with
  | nil => rfl
  | cons item items ih =>
      rw [List.flatMap_cons, List.length_append, ih, List.length_cons]
      exact Nat.add_comm ..

theorem readIndentlessItems_item (handles : Handles) (fuel : Nat) (item : Leaf)
    (rest : List Token) :
    readIndentlessItems handles (fuel + 2) (.blockEntry :: item.token :: rest) =
      (do
        let (items, rest) ← readIndentlessItems handles (fuel + 1) rest
        .ok (item.node :: items, rest)) := by
  rw [readIndentlessItems]
  simp [Leaf.token, lacksItem, lacksBlockPart, readNode_scalar, bind, Except.bind, Leaf.node]

/-- A list ends where a key or the end of the mapping follows. -/
theorem readIndentlessItems_items (items : List Leaf) (lacks : lacksBlockPart rest)
    (enough : items.length < fuel) :
    readIndentlessItems handles fuel (items.flatMap Leaf.itemTokens ++ rest) =
      .ok (items.map Leaf.node, rest) := by
  induction items generalizing fuel with
  | nil =>
      obtain ⟨fuel, rfl⟩ := Nat.exists_eq_add_one.mpr enough
      rw [List.flatMap_nil, List.nil_append, readIndentlessItems]
      · rfl
      · rintro others rfl
        contradiction
  | cons item items ih =>
      rw [List.length_cons] at enough
      obtain ⟨fuel, rfl⟩ : ∃ more, fuel = more + 2 := ⟨fuel - 2, by omega⟩
      rw [flatMap_itemTokens_cons, readIndentlessItems_item, ih (show _ < fuel + 1 by omega)]
      rfl

/-! ## The mapping -/

/-- The tokens behind the pairs that are read: there a value may be missing. -/
theorem lacksBlockPart_pairs (pairs : List Pair) (rest : List Token) :
    lacksBlockPart (pairs.flatMap Pair.tokens ++ .blockEnd :: rest) := by
  cases pairs <;> rfl

/-- What is under a key is read, unless there is nothing. -/
theorem readNode_held (held : Held) (lacks : lacksBlockPart rest)
    (enough : held.tokens.length < fuel) :
    held = .nothing ∨ lacksBlockPart (held.tokens ++ rest) = false ∧
      readNode handles true true fuel (held.tokens ++ rest) = .ok (held.node, rest) := by
  obtain ⟨fuel, rfl⟩ := Nat.exists_eq_add_one.mpr (Nat.zero_lt_of_lt enough)
  match held with
  | .nothing => exact .inl rfl
  | .scalar leaf =>
      exact .inr ⟨rfl, readNode_scalar handles true true fuel leaf.style leaf.text rest⟩
  | .list [] =>
      have more : 0 < fuel := Nat.lt_of_succ_lt_succ (Nat.lt_of_succ_lt enough)
      obtain ⟨fuel, rfl⟩ := Nat.exists_eq_add_one.mpr more
      exact .inr ⟨rfl, readNode_brackets handles fuel rest⟩
  | .list (item :: items) =>
      have many : (item :: items).length < fuel := by
        rw [Held.tokens, length_itemTokens, List.length_cons] at enough
        · rw [List.length_cons]
          omega
        · simp
      have reads := @readIndentlessItems_items handles fuel rest (item :: items) lacks many
      rw [flatMap_itemTokens_cons] at reads
      have begins : (Held.list (item :: items)).tokens ++ rest =
          .blockEntry :: item.token :: (items.flatMap Leaf.itemTokens ++ rest) := rfl
      refine .inr ⟨rfl, ?_⟩
      rw [begins, readNode_blockEntry, reads]
      rfl

theorem readBlockEntries_pair (pair : Pair) (lacks : lacksBlockPart rest)
    (enough : pair.held.tokens.length < fuel) :
    readBlockEntries handles (fuel + 1) (pair.tokens ++ rest) =
      (do
        let (entries, rest) ← readBlockEntries handles fuel rest
        .ok (pair.nodes :: entries, rest)) := by
  have reads := @readNode_held handles fuel rest pair.held lacks enough
  obtain ⟨more, rfl⟩ := Nat.exists_eq_add_one.mpr (Nat.zero_lt_of_lt enough)
  have stands (others : List Token) :
      lacksBlockPart (.scalar .plain pair.key :: others) = false := rfl
  simp only [Pair.tokens, List.cons_append]
  rw [readBlockEntries]
  rcases reads with none | ⟨there, reads⟩
  · simp [stands, readNode_scalar, none, Held.tokens, lacks, bind, Except.bind, Pair.nodes,
      Held.node]
  · simp [stands, readNode_scalar, there, reads, bind, Except.bind, Pair.nodes]

/-- The pairs of a block mapping are read in their order. -/
theorem readBlockEntries_pairs (pairs : List Pair)
    (enough : (pairs.flatMap Pair.tokens).length < fuel) (rest : List Token) :
    readBlockEntries handles fuel (pairs.flatMap Pair.tokens ++ .blockEnd :: rest) =
      .ok (pairs.map Pair.nodes, rest) := by
  induction pairs generalizing fuel with
  | nil =>
      obtain ⟨fuel, rfl⟩ := Nat.exists_eq_add_one.mpr enough
      rw [List.flatMap_nil, List.nil_append, readBlockEntries]
      rfl
  | cons pair pairs ih =>
      have many : pair.tokens.length = pair.held.tokens.length + 3 := rfl
      rw [List.flatMap_cons, List.length_append, many] at enough
      obtain ⟨fuel, rfl⟩ := Nat.exists_eq_add_one.mpr (Nat.zero_lt_of_lt enough)
      rw [List.flatMap_cons, List.append_assoc, readBlockEntries_pair pair
        (lacksBlockPart_pairs pairs rest) (by omega), ih (by omega)]
      rfl

/-- The document of several pairs is one mapping. -/
theorem readDocument_pairs (pairs : List Pair) :
    readDocument (.blockMappingStart :: (pairs.flatMap Pair.tokens ++ [.blockEnd])) =
      .ok (some (.mapping .none (pairs.map Pair.nodes))) := by
  have content : readContent [] (.blockMappingStart :: (pairs.flatMap Pair.tokens ++ [.blockEnd])) =
      .ok (.mapping .none (pairs.map Pair.nodes), []) := by
    unfold readContent stepsFor
    rw [readNode_blockMapping, readBlockEntries_pairs]
    · rfl
    · simp only [List.length_cons, List.length_append]
      omega
  unfold readDocument
  simp only [content]
  rfl

/-! ## Anchors -/

theorem numberItems_leaves (numbers : AnchorNumbers) (items : List Leaf) :
    Node.numberItems numbers (items.map Leaf.node) = .ok (items.map Leaf.node, numbers) := by
  induction items with
  | nil => rw [List.map_nil, Node.numberItems]; rfl
  | cons item items ih =>
      rw [List.map_cons, Leaf.node, Node.numberItems]
      simp [Node.number, Node.numberProperties, Properties.none, bind, Except.bind, ih, Leaf.node]

theorem number_held (numbers : AnchorNumbers) (held : Held) :
    held.node.number numbers = .ok (held.node, numbers) := by
  cases held with
  | nothing => rfl
  | scalar leaf => rfl
  | list items =>
      rw [Held.node, Node.number]
      simp [Node.numberProperties, Properties.none, bind, Except.bind, numberItems_leaves,
        Held.node]

theorem numberEntries_pairs (numbers : AnchorNumbers) (pairs : List Pair) :
    Node.numberEntries numbers (pairs.map Pair.nodes) = .ok (pairs.map Pair.nodes, numbers) := by
  induction pairs with
  | nil => rw [List.map_nil, Node.numberEntries]; rfl
  | cons pair pairs ih =>
      rw [List.map_cons, Pair.nodes, Node.numberEntries]
      simp [Node.number, Node.numberProperties, Properties.none, bind, Except.bind, ih, number_held,
        Pair.nodes]

theorem anchoredItems_leaves (items : List Leaf) :
    Node.anchoredItems (items.map Leaf.node) = [] := by
  induction items with
  | nil => rw [List.map_nil, Node.anchoredItems]
  | cons item items ih =>
      rw [List.map_cons, Leaf.node, Node.anchoredItems, ih]
      simp [Node.anchored, Node.anchorEntry, Properties.none]

theorem anchored_held (held : Held) : held.node.anchored = [] := by
  cases held with
  | nothing => rfl
  | scalar leaf => rfl
  | list items =>
      rw [Held.node, Node.anchored, anchoredItems_leaves]
      rfl

theorem anchoredEntries_pairs (pairs : List Pair) :
    Node.anchoredEntries (pairs.map Pair.nodes) = [] := by
  induction pairs with
  | nil => rw [List.map_nil, Node.anchoredEntries]
  | cons pair pairs ih =>
      rw [List.map_cons, Pair.nodes, Node.anchoredEntries, ih, anchored_held]
      rfl

/-- A text whose tokens are those of several pairs is the document of one mapping. -/
theorem documentOf_pairs {cs : List Char} {pairs : List Pair} (prepared : prepare cs = .ok cs)
    (tokens : tokensOf cs =
      .ok (.blockMappingStart :: (pairs.flatMap Pair.tokens ++ [.blockEnd]))) :
    documentOf (String.ofList cs) = .ok (some ⟨.mapping .none (pairs.map Pair.nodes), []⟩) := by
  unfold documentOf
  rw [String.toList_ofList, prepared]
  simp only [bind, Except.bind, tokens, readDocument_pairs]
  simp only [LinkedDocument.ofNode, Node.number, Node.numberProperties, Properties.none, bind,
    Except.bind, numberEntries_pairs, Node.anchored, anchoredEntries_pairs]
  rfl

end AgentKit.Yaml
