import ClassOutline.Yaml.Resolve
import ClassOutline.Yaml.Token

/-!
# The nodes of a YAML document

The tokens of a text are put together to the nodes of its first document; what follows that document
is not read, except that its first tokens have to be sound. Anchors and aliases are numbered in the
order of the text, and an alias tells the number of the anchor that it stands for. A node can
contain an alias of itself, so a document is a graph and not a tree.
-/

namespace ClassOutline.Yaml

/-- A node of a document, with its tag and the line on which it begins, counted from one. -/
inductive Node where
  | scalar (tag text : Bytes) (line : Nat)
  | sequence (tag : Bytes) (items : List Node) (line : Nat)
  | mapping (tag : Bytes) (entries : List (Node × Node)) (line : Nat)
  /-- An alias: its name, its own number and that of its anchor. -/
  | alias (name : Bytes) (number anchor : Nat) (line : Nat)
deriving Repr

namespace Node

/-- The line on which a node begins. -/
def line : Node → Nat
  | .scalar _ _ l | .sequence _ _ l | .mapping _ _ l | .alias _ _ _ l => l

/-- The node of an empty place. -/
def empty (line : Nat) : Node := .scalar Tag.null [] (line + 1)

end Node

/-- A document: its root, the nodes that anchors mark, by number, and bounds for the number of its
aliases and of its nodes. -/
structure Document where
  root : Node
  marked : List (Nat × Node) := []
  aliases : Nat := 0
  size : Nat := 0

/-- The node that an anchor marks. -/
def Document.target? (d : Document) (anchor : Nat) : Option Node :=
  (d.marked.find? fun m => m.1 == anchor).map Prod.snd

/-- What is known while a document is read. -/
structure Context where
  /-- The anchors and their numbers, latest first. -/
  anchors : List (Bytes × Nat) := []
  /-- The nodes finished so far that an anchor marks. -/
  marked : List (Nat × Node) := []
  /-- How many aliases have been read. -/
  aliases : Nat := 0
  /-- What the tag handles stand for. -/
  handles : List (Bytes × Bytes) := []

namespace Context

/-- The context with an anchor, if there is one. -/
def openAnchor (ctx : Context) (name : Option Bytes) : Context :=
  match name with
  | some n => { ctx with anchors := (n, ctx.anchors.length) :: ctx.anchors }
  | none => ctx

/-- The context with the node finished that the anchor of a number marks, if it has one. -/
def closeAnchor (ctx : Context) (number : Nat) (name : Option Bytes) (node : Node) : Context :=
  match name with
  | some _ => { ctx with marked := (number, node) :: ctx.marked }
  | none => ctx

end Context

/-- The outcome of reading a part of a document: what was read, the context and the tokens left. -/
abbrev Parsed (α : Type) := Option (α × Context × List Token)

/-- Properties in front of a node: its anchor and its tag. -/
structure Properties where
  anchor : Option Bytes := none
  tag : Option Bytes := none

/-- The tag that a handle and a suffix stand for. -/
def expandTag (ctx : Context) (handle suffix : Bytes) : Option Bytes :=
  if handle.isEmpty then some suffix
  else (ctx.handles.find? fun h => h.1 == handle).map fun h => h.2 ++ suffix

/-- An anchor, a tag, or both in either order. -/
def properties (ctx : Context) (ts : List Token) : Option (Properties × List Token) :=
  match ts with
  | ⟨.anchor a, _⟩ :: ⟨.tag h s, _⟩ :: rest | ⟨.tag h s, _⟩ :: ⟨.anchor a, _⟩ :: rest =>
    (expandTag ctx h s).map fun t => (⟨some a, some t⟩, rest)
  | ⟨.anchor a, _⟩ :: rest => some (⟨some a, none⟩, rest)
  | ⟨.tag h s, _⟩ :: rest => (expandTag ctx h s).map fun t => (⟨none, some t⟩, rest)
  | _ => some ({}, ts)

/-- The tag of a node: its own, unless that is missing or a bare exclamation mark. -/
def ownTag (p : Properties) (default : Bytes) : Bytes :=
  match p.tag with
  | some t => if t == [0x21] then default else shortTag t
  | none => default

/-- The tag of a scalar without a tag of its own. -/
def defaultScalarTag (text : Bytes) (isPlain : Bool) : Bytes :=
  if !isPlain then Tag.str
  else if text == Bytes.ofString "<<" then Tag.merge
  else (resolve true text).tag

/-- Whether the next token is one of some kinds. -/
def nextIs (kinds : List TokenKind) (ts : List Token) : Bool :=
  ts.head?.any fun t => kinds.contains t.kind

/-- The line of the next token. -/
def nextLine (ts : List Token) : Nat := (ts.head?.map Token.line).getD 0

mutual

/-- A node. `block` allows block collections, and `indentless` a sequence whose dashes stand under
the key of the mapping around it. -/
def node (fuel : Nat) (block indentless : Bool) (ctx : Context) (ts : List Token) : Parsed Node :=
  match fuel with
  | 0 => none
  | fuel + 1 =>
    match ts with
    | ⟨.alias name, line⟩ :: rest =>
      match ctx.anchors.find? fun a => a.1 == name with
      | some (_, anchor) =>
        let ctx := { ctx with aliases := ctx.aliases + 1 }
        some (.alias name ctx.aliases anchor (line + 1), ctx, rest)
      | none => none
    | _ =>
      match properties ctx ts with
      | none => none
      | some (p, rest) =>
        let line := nextLine ts + 1
        let number := ctx.anchors.length
        let ctx := ctx.openAnchor p.anchor
        let close (n : Node) (ctx : Context) (rest : List Token) : Parsed Node :=
          some (n, ctx.closeAnchor number p.anchor n, rest)
        let sequence (r : Parsed (List Node)) : Parsed Node :=
          match r with
          | some (items, ctx, rest) => close (.sequence (ownTag p Tag.seq) items line) ctx rest
          | none => none
        let mapping (r : Parsed (List (Node × Node))) : Parsed Node :=
          match r with
          | some (entries, ctx, rest) => close (.mapping (ownTag p Tag.map) entries line) ctx rest
          | none => none
        match rest with
        | ⟨.scalar text isPlain, _⟩ :: rest =>
          close (.scalar (ownTag p (defaultScalarTag text isPlain)) text line) ctx rest
        | ⟨.flowSequenceStart, _⟩ :: rest => sequence (flowSequence fuel true [] ctx rest)
        | ⟨.flowMappingStart, _⟩ :: rest => mapping (flowMapping fuel true [] ctx rest)
        | _ =>
          if indentless && nextIs [.blockEntry] rest then
            sequence (indentlessSequence fuel [] ctx rest)
          else if block && nextIs [.blockSequenceStart] rest then
            sequence (blockSequence fuel [] ctx rest.tail)
          else if block && nextIs [.blockMappingStart] rest then
            mapping (blockMapping fuel [] ctx rest.tail)
          else if p.anchor.isSome || p.tag.isSome then
            close (.scalar (ownTag p Tag.null) [] line) ctx rest
          else none

/-- The entries of a block sequence. -/
def blockSequence (fuel : Nat) (acc : List Node) (ctx : Context) (ts : List Token) :
    Parsed (List Node) :=
  match fuel with
  | 0 => none
  | fuel + 1 =>
    match ts with
    | ⟨.blockEntry, line⟩ :: rest =>
      if nextIs [.blockEntry, .blockEnd] rest then
        blockSequence fuel (.empty line :: acc) ctx rest
      else
        match node fuel true false ctx rest with
        | some (n, ctx, rest) => blockSequence fuel (n :: acc) ctx rest
        | none => none
    | ⟨.blockEnd, _⟩ :: rest => some (acc.reverse, ctx, rest)
    | _ => none

/-- The entries of a sequence whose dashes stand under a key. -/
def indentlessSequence (fuel : Nat) (acc : List Node) (ctx : Context) (ts : List Token) :
    Parsed (List Node) :=
  match fuel with
  | 0 => none
  | fuel + 1 =>
    match ts with
    | ⟨.blockEntry, line⟩ :: rest =>
      if nextIs [.blockEntry, .key, .value, .blockEnd] rest then
        indentlessSequence fuel (.empty line :: acc) ctx rest
      else
        match node fuel true false ctx rest with
        | some (n, ctx, rest) => indentlessSequence fuel (n :: acc) ctx rest
        | none => none
    | _ => some (acc.reverse, ctx, ts)

/-- The entries of a block mapping. -/
def blockMapping (fuel : Nat) (acc : List (Node × Node)) (ctx : Context) (ts : List Token) :
    Parsed (List (Node × Node)) :=
  match fuel with
  | 0 => none
  | fuel + 1 =>
    match ts with
    | ⟨.key, line⟩ :: rest =>
      let key : Parsed Node :=
        if nextIs [.key, .value, .blockEnd] rest then some (.empty line, ctx, rest)
        else node fuel true true ctx rest
      match key with
      | none => none
      | some (k, ctx, rest) =>
        match blockValue fuel ctx rest with
        | some (v, ctx, rest) => blockMapping fuel ((k, v) :: acc) ctx rest
        | none => none
    | ⟨.blockEnd, _⟩ :: rest => some (acc.reverse, ctx, rest)
    | _ => none

/-- The value of an entry of a block mapping. -/
def blockValue (fuel : Nat) (ctx : Context) (ts : List Token) : Parsed Node :=
  match fuel with
  | 0 => none
  | fuel + 1 =>
    match ts with
    | ⟨.value, line⟩ :: rest =>
      if nextIs [.key, .value, .blockEnd] rest then some (.empty line, ctx, rest)
      else node fuel true true ctx rest
    | _ => some (.empty (nextLine ts), ctx, ts)

/-- The entries of a sequence in brackets. A key among them is a mapping of one entry. -/
def flowSequence (fuel : Nat) (first : Bool) (acc : List Node) (ctx : Context) (ts : List Token) :
    Parsed (List Node) :=
  match fuel with
  | 0 => none
  | fuel + 1 =>
    match ts with
    | ⟨.flowSequenceEnd, _⟩ :: rest => some (acc.reverse, ctx, rest)
    | _ =>
      let entry : Option (List Token) :=
        if first then some ts
        else
          match ts with
          | ⟨.flowEntry, _⟩ :: rest => some rest
          | _ => none
      match entry with
      | none => none
      | some (⟨.flowSequenceEnd, _⟩ :: rest) => some (acc.reverse, ctx, rest)
      | some (⟨.key, line⟩ :: rest) =>
        let ends := [TokenKind.value, .flowEntry, .flowSequenceEnd]
        let key : Parsed Node :=
          if nextIs ends rest then some (.empty (nextLine rest), ctx, rest.tail)
          else node fuel false false ctx rest
        match key with
        | none => none
        | some (k, ctx, rest) =>
          let value : Parsed Node :=
            match rest with
            | ⟨.value, l⟩ :: rest =>
              if nextIs [.flowEntry, .flowSequenceEnd] rest then some (.empty l, ctx, rest)
              else node fuel false false ctx rest
            | _ => some (.empty (nextLine rest), ctx, rest)
          match value with
          | none => none
          | some (v, ctx, rest) =>
            flowSequence fuel false (.mapping Tag.map [(k, v)] (line + 1) :: acc) ctx rest
      | some rest =>
        match node fuel false false ctx rest with
        | some (n, ctx, rest) => flowSequence fuel false (n :: acc) ctx rest
        | none => none

/-- The entries of a mapping in braces. -/
def flowMapping (fuel : Nat) (first : Bool) (acc : List (Node × Node)) (ctx : Context)
    (ts : List Token) : Parsed (List (Node × Node)) :=
  match fuel with
  | 0 => none
  | fuel + 1 =>
    match ts with
    | ⟨.flowMappingEnd, _⟩ :: rest => some (acc.reverse, ctx, rest)
    | _ =>
      let entry : Option (List Token) :=
        if first then some ts
        else
          match ts with
          | ⟨.flowEntry, _⟩ :: rest => some rest
          | _ => none
      match entry with
      | none => none
      | some (⟨.flowMappingEnd, _⟩ :: rest) => some (acc.reverse, ctx, rest)
      | some (⟨.key, _⟩ :: rest) =>
        let key : Parsed Node :=
          if nextIs [.value, .flowEntry, .flowMappingEnd] rest then
            some (.empty (nextLine rest), ctx, rest)
          else node fuel false false ctx rest
        match key with
        | none => none
        | some (k, ctx, rest) =>
          let value : Parsed Node :=
            match rest with
            | ⟨.value, l⟩ :: rest =>
              if nextIs [.flowEntry, .flowMappingEnd] rest then some (.empty l, ctx, rest)
              else node fuel false false ctx rest
            | _ => some (.empty (nextLine rest), ctx, rest)
          match value with
          | some (v, ctx, rest) => flowMapping fuel false ((k, v) :: acc) ctx rest
          | none => none
      | some rest =>
        match node fuel false false ctx rest with
        | some (n, ctx, rest) =>
          flowMapping fuel false ((n, .empty (nextLine rest)) :: acc) ctx rest
        | none => none

end

/-! ## Documents -/

/-- The tag handles that need no directive. -/
def standardHandles : List (Bytes × Bytes) :=
  [("!", "!"), ("!!", "tag:yaml.org,2002:")].map fun h => (Bytes.ofString h.1, Bytes.ofString h.2)

/-- The directives in front of a document: the handles they define, and the tokens after them. -/
def directives (version : Bool) (handles : List (Bytes × Bytes)) :
    List Token → Option (List (Bytes × Bytes) × List Token)
  | ⟨.directive (.version major minor), _⟩ :: rest =>
    if version || major != 1 || minor != 1 then none else directives true handles rest
  | ⟨.directive (.handle name start), _⟩ :: rest =>
    if handles.any fun h => h.1 == name then none
    else directives version (handles ++ [(name, start)]) rest
  | ts => some (handles, ts)

/-- Whether the token after a document is handed over, where `number` tokens stand before it: the two
after it are sound as well, and neither it nor one before it is held back. -/
def isHandedOver (number : Nat) (ts : List Token) : Bool :=
  match ts.getLast? with
  | some ⟨.fault awaited, _⟩ => 3 < ts.length && awaited.all (number < ·)
  | _ => true

/-- Whether a token can only stand outside a document. -/
def endsDocument (t : Token) : Bool :=
  match t.kind with
  | .directive _ | .documentStart | .documentEnd | .streamEnd => true
  | _ => false

/-- A document: nothing for a text without one; none where the text is malformed. -/
def document (ts : List Token) : Option (Option Document) :=
  match ts with
  | ⟨.streamEnd, _⟩ :: _ => some none
  | _ => do
    let (handles, rest) ← directives false [] ts
    let explicit := nextIs [.documentStart] rest
    guard (explicit || rest.length == ts.length)
    let rest := if explicit then rest.tail else rest
    let ctx : Context := { handles := handles ++ standardHandles }
    let (root, ctx, rest) ←
      if explicit && rest.head?.any endsDocument then some (.empty (nextLine rest), ctx, rest)
      else node (2 * rest.length + 2) true false ctx rest
    guard (isHandedOver (ts.length - rest.length) rest)
    return some { root, marked := ctx.marked, aliases := ctx.aliases, size := ts.length }

/-- The first document of a text. -/
def parse (text : Bytes) : Option (Option Document) := document (tokenize text)

end ClassOutline.Yaml
