/-
# The nodes of a list of tokens

A document is read from tokens by recursive descent. An absent key, value or item
is an empty plain scalar. A text holds at most one document, which may be begun and
ended by marks; a text without tokens holds none.
-/

import AgentKit.Yaml.Error
import AgentKit.Yaml.Node

namespace AgentKit.Yaml

/-- A node as a text gives it: anchors are names. -/
abbrev NamedNode := Node (List Char)

/-- What handles of tags stand for, the first entry of a handle deciding. -/
abbrev Handles := List (List Char × List UInt8)

/-- The handles that every document knows. -/
def standardHandles : Handles :=
  [(['!'], "!".toUTF8.toList), (['!', '!'], "tag:yaml.org,2002:".toUTF8.toList)]

/-- The tag that a token writes. -/
def TagToken.resolve (tag : TagToken) (handles : Handles) : Except Error Tag :=
  if tag.handle.isEmpty then .ok tag.suffix
  else
    match handles.lookup tag.handle with
    | some image => .ok (image ++ tag.suffix)
    | none => .error .badTag

/-- Read the anchor and the tag in front of a node, in any order. -/
def readProperties (handles : Handles) :
    List Token → Except Error (Properties (List Char) × List Token)
  | .anchor name :: .tag tag :: rest => do
    .ok (⟨some name, some (← tag.resolve handles)⟩, rest)
  | .tag tag :: .anchor name :: rest => do
    .ok (⟨some name, some (← tag.resolve handles)⟩, rest)
  | .anchor name :: rest => .ok (⟨some name, none⟩, rest)
  | .tag tag :: rest => do .ok (⟨none, some (← tag.resolve handles)⟩, rest)
  | rest => .ok (.none, rest)

/-- Whether an entry of a block sequence is absent. -/
def lacksItem : List Token → Bool
  | .blockEntry :: _ | .blockEnd :: _ => true
  | _ => false

/-- Whether a key or value of a block mapping is absent. -/
def lacksBlockPart : List Token → Bool
  | .key :: _ | .value :: _ | .blockEnd :: _ => true
  | _ => false

/-- Whether the value of a pair in a flow sequence is absent. -/
def lacksPairValue : List Token → Bool
  | .flowEntry :: _ | .flowSequenceEnd :: _ => true
  | _ => false

/-- Whether the value of an entry of a flow mapping is absent. -/
def lacksFlowValue : List Token → Bool
  | .flowEntry :: _ | .flowMappingEnd :: _ => true
  | _ => false

/-- The tokens of the next entry of a flow collection: all entries but the first
follow a comma. -/
def afterComma (isFirst : Bool) (tokens : List Token) : Except Error (List Token) :=
  if isFirst then .ok tokens
  else
    match tokens with
    | .flowEntry :: rest => .ok rest
    | _ => .error .unexpectedToken

/-- The node where the tokens have none. There must be a property at least. -/
def absent (properties : Properties (List Char)) (tokens : List Token) :
    Except Error (NamedNode × List Token) :=
  if properties.anchor.isSome || properties.tag.isSome then
    .ok (.empty properties, tokens)
  else .error .unexpectedToken

mutual

/-- Read a node. `block` says whether block collections may begin here, and
`indentless` whether a block sequence may without being indented. -/
def readNode (handles : Handles) (block indentless : Bool) (fuel : Nat)
    (tokens : List Token) : Except Error (NamedNode × List Token) :=
  match fuel with
  | 0 => .error .unexpectedToken
  | fuel + 1 =>
    match tokens with
    | .alias name :: rest => .ok (.alias name, rest)
    | _ => do
      let (properties, tokens) ← readProperties handles tokens
      match tokens with
      | .scalar style text :: rest => .ok (.scalar properties style text, rest)
      | .flowSequenceStart :: rest =>
        let (items, rest) ← readFlowItems handles true fuel rest
        .ok (.sequence properties items, rest)
      | .flowMappingStart :: rest =>
        let (entries, rest) ← readFlowEntries handles true fuel rest
        .ok (.mapping properties entries, rest)
      | .blockEntry :: _ =>
        if indentless then
          let (items, rest) ← readIndentlessItems handles fuel tokens
          .ok (.sequence properties items, rest)
        else absent properties tokens
      | .blockSequenceStart :: rest =>
        if block then
          let (items, rest) ← readBlockItems handles fuel rest
          .ok (.sequence properties items, rest)
        else absent properties tokens
      | .blockMappingStart :: rest =>
        if block then
          let (entries, rest) ← readBlockEntries handles fuel rest
          .ok (.mapping properties entries, rest)
        else absent properties tokens
      | _ => absent properties tokens

/-- Read the items of a block sequence, up to its end. -/
def readBlockItems (handles : Handles) (fuel : Nat) (tokens : List Token) :
    Except Error (List NamedNode × List Token) :=
  match fuel with
  | 0 => .error .unexpectedToken
  | fuel + 1 =>
    match tokens with
    | .blockEntry :: rest => do
      let (item, rest) ←
        if lacksItem rest then .ok (.empty .none, rest)
        else readNode handles true false fuel rest
      let (items, rest) ← readBlockItems handles fuel rest
      .ok (item :: items, rest)
    | .blockEnd :: rest => .ok ([], rest)
    | _ => .error .unexpectedToken

/-- Read the items of a block sequence that is not indented. It ends before the
first token that begins no item. -/
def readIndentlessItems (handles : Handles) (fuel : Nat) (tokens : List Token) :
    Except Error (List NamedNode × List Token) :=
  match fuel with
  | 0 => .error .unexpectedToken
  | fuel + 1 =>
    match tokens with
    | .blockEntry :: rest => do
      let (item, rest) ←
        if lacksItem rest || lacksBlockPart rest then .ok (.empty .none, rest)
        else readNode handles true false fuel rest
      let (items, rest) ← readIndentlessItems handles fuel rest
      .ok (item :: items, rest)
    | _ => .ok ([], tokens)

/-- Read the entries of a block mapping, up to its end. -/
def readBlockEntries (handles : Handles) (fuel : Nat) (tokens : List Token) :
    Except Error (List (NamedNode × NamedNode) × List Token) :=
  match fuel with
  | 0 => .error .unexpectedToken
  | fuel + 1 =>
    match tokens with
    | .key :: rest => do
      let (key, rest) ←
        if lacksBlockPart rest then .ok (.empty .none, rest)
        else readNode handles true true fuel rest
      let (value, rest) ←
        match rest with
        | .value :: rest =>
          if lacksBlockPart rest then .ok (.empty .none, rest)
          else readNode handles true true fuel rest
        | _ => .ok (.empty .none, rest)
      let (entries, rest) ← readBlockEntries handles fuel rest
      .ok ((key, value) :: entries, rest)
    | .blockEnd :: rest => .ok ([], rest)
    | _ => .error .unexpectedToken

/-- Read the items of a flow sequence, up to its end. An item that begins with a
key is a mapping with one entry. Where the key is absent, the token after the mark
of the key is passed over. -/
def readFlowItems (handles : Handles) (isFirst : Bool) (fuel : Nat) (tokens : List Token) :
    Except Error (List NamedNode × List Token) :=
  match fuel with
  | 0 => .error .unexpectedToken
  | fuel + 1 =>
    match tokens with
    | .flowSequenceEnd :: rest => .ok ([], rest)
    | _ => do
      let tokens ← afterComma isFirst tokens
      match tokens with
      | .flowSequenceEnd :: rest => .ok ([], rest)
      | .key :: rest =>
        let (key, rest) ←
          match rest with
          | .value :: rest | .flowEntry :: rest | .flowSequenceEnd :: rest =>
            .ok (.empty .none, rest)
          | _ => readNode handles false false fuel rest
        let (value, rest) ←
          match rest with
          | .value :: rest =>
            if lacksPairValue rest then .ok (.empty .none, rest)
            else readNode handles false false fuel rest
          | _ => .ok (.empty .none, rest)
        let (items, rest) ← readFlowItems handles false fuel rest
        .ok (.mapping .none [(key, value)] :: items, rest)
      | _ =>
        let (item, rest) ← readNode handles false false fuel tokens
        let (items, rest) ← readFlowItems handles false fuel rest
        .ok (item :: items, rest)

/-- Read the entries of a flow mapping, up to its end. An entry without the mark of
a key has no value. -/
def readFlowEntries (handles : Handles) (isFirst : Bool) (fuel : Nat)
    (tokens : List Token) : Except Error (List (NamedNode × NamedNode) × List Token) :=
  match fuel with
  | 0 => .error .unexpectedToken
  | fuel + 1 =>
    match tokens with
    | .flowMappingEnd :: rest => .ok ([], rest)
    | _ => do
      let tokens ← afterComma isFirst tokens
      match tokens with
      | .flowMappingEnd :: rest => .ok ([], rest)
      | .key :: rest =>
        let (key, rest) ←
          match rest with
          | .value :: _ | .flowEntry :: _ | .flowMappingEnd :: _ => .ok (.empty .none, rest)
          | _ => readNode handles false false fuel rest
        let (value, rest) ←
          match rest with
          | .value :: rest =>
            if lacksFlowValue rest then .ok (.empty .none, rest)
            else readNode handles false false fuel rest
          | _ => .ok (.empty .none, rest)
        let (entries, rest) ← readFlowEntries handles false fuel rest
        .ok ((key, value) :: entries, rest)
      | _ =>
        let (key, rest) ← readNode handles false false fuel tokens
        let (entries, rest) ← readFlowEntries handles false fuel rest
        .ok ((key, .empty .none) :: entries, rest)

end

/-- The declarations in front of a document. -/
structure Prologue where
  hasVersion : Bool
  handles : Handles

/-- Read the directives in front of a document. The version may be given once, and
each handle may be declared once. -/
def readPrologue (prologue : Prologue) :
    List Token → Except Error (Prologue × List Token)
  | .versionDirective major minor :: rest =>
    if prologue.hasVersion || major != 1 || (minor != 1 && minor != 2) then
      .error .badDirective
    else readPrologue { prologue with hasVersion := true } rest
  | .tagDirective handle image :: rest =>
    if (prologue.handles.lookup handle).isSome then .error .badDirective
    else readPrologue { prologue with handles := prologue.handles ++ [(handle, image)] } rest
  | rest => .ok (prologue, rest)

/-- Whether a document that was begun by a mark has no content. -/
def lacksContent : List Token → Bool
  | [] => true
  | .versionDirective _ _ :: _ | .tagDirective _ _ :: _ | .documentStart :: _
  | .documentEnd :: _ => true
  | _ => false

/-- A number of steps that is enough to read a node from a list of tokens: no more
than two steps are taken for each token. -/
def stepsFor (tokens : List Token) : Nat :=
  3 * tokens.length + 3

/-- Read the node of a document. -/
def readContent (handles : Handles) (tokens : List Token) :
    Except Error (NamedNode × List Token) :=
  readNode (handles ++ standardHandles) true false (stepsFor tokens) tokens

/-- Read a document that is begun by a mark, which may follow directives. -/
def readMarkedDocument (tokens : List Token) : Except Error (NamedNode × List Token) := do
  let (prologue, tokens) ← readPrologue ⟨false, []⟩ tokens
  match tokens with
  | .documentStart :: rest =>
    if lacksContent rest then .ok (.empty .none, rest) else readContent prologue.handles rest
  | _ => .error .unexpectedToken

/-- Whether nothing but marks of the end of a document follows. -/
def isEpilogue (tokens : List Token) : Bool :=
  tokens.all (· == .documentEnd)

/-- The only document of a list of tokens, or none. -/
def readDocument (tokens : List Token) : Except Error (Option NamedNode) :=
  match tokens with
  | [] => .ok none
  | first :: _ => do
    let isMarked :=
      match first with
      | .versionDirective _ _ | .tagDirective _ _ | .documentStart => true
      | _ => false
    let (node, rest) ← if isMarked then readMarkedDocument tokens else readContent [] tokens
    if isEpilogue rest then .ok (some node) else .error .severalDocuments

end AgentKit.Yaml
