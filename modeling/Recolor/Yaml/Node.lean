import Recolor.Yaml.Token

/-!
# YAML documents

A document is a `Node`: text, a list, or a list of entries. A node can be given a name by an anchor,
and an alias with this name stands for it. Names are told apart by numbers: an anchor gives its name
the number of names so far, and an alias stands for the node that began last among those whose
anchor gave the number that its own name has.
-/

set_option autoImplicit false

namespace Recolor.Yaml

/-- What a document holds. -/
inductive Node where
  | scalar (tag : Option Tag) (style : Style) (text : String)
  | sequence (items : List Node)
  | mapping (entries : List (Node × Node))
  | alias (number : Nat)

/-- The node of a place where there is no content. -/
def Node.empty (tag : Option Tag) : Node := .scalar tag .plain ""

/-- A document: its outermost node, and the nodes that aliases stand for. -/
structure Document where
  root : Node
  named : List (Nat × Node)

/-- The node that a node stands for, which is itself unless it is an alias. -/
def Document.resolve (d : Document) : Node → Node
  | .alias number => (d.named.lookup number).getD (.alias number)
  | n => n

/-- The tokens that are left, the handles of tags, the numbers of names, the numbers that the nodes
with anchors were given, the last first, and those of these nodes that are read to their end, each
under the number of them that began before it. -/
structure Reader where
  tokens : List Token
  handles : List (String × Tag) := []
  numbers : List (String × Nat) := []
  begun : List Nat := []
  ended : List (Nat × Node) := []

namespace Reader

/-- The reader with other tokens left. -/
def leaving (r : Reader) (tokens : List Token) : Reader := { r with tokens := tokens }

/-- Begins a node with an anchor, whose name takes the number of names so far. -/
def begin (r : Reader) : Option String → Reader
  | none => r
  | some name =>
    let number := r.numbers.length
    { r with
      numbers := (name, number) :: r.numbers.filter (·.1 != name)
      begun := number :: r.begun }

/-- Ends a node that began behind `rank` others with anchors, and has one itself if `anchored`. -/
def finish (r : Reader) (anchored : Bool) (rank : Nat) (node : Node) : Reader :=
  if anchored then { r with ended := (rank, node) :: r.ended } else r

/-- The nodes that aliases stand for, by their numbers: of each number the node that began last
comes first. -/
def named (r : Reader) : List (Nat × Node) :=
  r.begun.zipIdx.filterMap fun (number, later) =>
    (r.ended.lookup (r.begun.length - 1 - later)).map (number, ·)

/-- The next token is one of those listed. -/
def nextIsIn (r : Reader) (tokens : List Token) : Bool :=
  match r.tokens with
  | [] => false
  | t :: _ => tokens.contains t

/-- The handles that need no directive. -/
def standardHandles : List (String × Tag) :=
  [("!", .sign), ("!!", .ofString "tag:yaml.org,2002:")]

/-- The tag in full. -/
def fullTag (r : Reader) (handle : String) (suffix : Tag) : Except Defect Tag :=
  if handle.isEmpty then .ok suffix
  else
    match (r.handles ++ standardHandles).lookup handle with
    | some meaning => .ok (meaning.append suffix)
    | none => .error .tag

/-- The anchor and the tag in front of a node, in either order. -/
def properties (r : Reader) : Except Defect (Option String × Option Tag × Reader) :=
  match r.tokens with
  | .anchor a :: .tag handle suffix :: rest | .tag handle suffix :: .anchor a :: rest => do
    return (some a, some (← r.fullTag handle suffix), r.leaving rest)
  | .anchor a :: rest => .ok (some a, none, r.leaving rest)
  | .tag handle suffix :: rest => do
    return (none, some (← r.fullTag handle suffix), r.leaving rest)
  | _ => .ok (none, none, r)

/-- Reads the comma in front of a part of a collection in brackets, unless it is the first. -/
def separated (first : Bool) (r : Reader) : Except Defect Reader :=
  match first, r.tokens with
  | true, _ => .ok r
  | false, .flowEntry :: rest => .ok (r.leaving rest)
  | false, _ => .error .unclosedCollection

/-- A list of the items that were read. -/
def sequenceOf (items : Except Defect (List Node × Reader)) : Except Defect (Node × Reader) :=
  items.map fun (ns, r) => (.sequence ns, r)

/-- A mapping of the entries that were read. -/
def mappingOf (entries : Except Defect (List (Node × Node) × Reader)) :
    Except Defect (Node × Reader) :=
  entries.map fun (es, r) => (.mapping es, r)

mutual

/-- Reads a node. Block collections are admitted if `blocks`, and items with dashes that are not
indented if `dashes`. -/
def node (blocks dashes : Bool) : Nat → Reader → Except Defect (Node × Reader)
  | 0, _ => .error .unclosedCollection
  | fuel + 1, r =>
    match r.tokens with
    | .alias a :: rest =>
      match r.numbers.lookup a with
      | some number => .ok (.alias number, r.leaving rest)
      | none => .error (.unknownAnchor a)
    | _ => do
      let (anchor, tag, r) ← properties r
      let rank := r.begun.length
      let (n, r) ← content blocks dashes (anchor.isSome || tag.isSome) tag fuel (r.begin anchor)
      return (n, r.finish anchor.isSome rank n)

/-- Reads a node behind its properties, of which there are some if `described`. -/
def content (blocks dashes described : Bool) (tag : Option Tag) :
    Nat → Reader → Except Defect (Node × Reader)
  | 0, _ => .error .unclosedCollection
  | fuel + 1, r =>
    match r.tokens, blocks, dashes with
    | .blockEntry :: _, _, true => sequenceOf (dashItems fuel r)
    | .scalar style text :: rest, _, _ => .ok (.scalar tag style text, r.leaving rest)
    | .flowSequence :: rest, _, _ => sequenceOf (flowItems true fuel (r.leaving rest))
    | .flowMapping :: rest, _, _ => mappingOf (flowEntries true fuel (r.leaving rest))
    | .blockSequence :: rest, true, _ => sequenceOf (blockItems fuel (r.leaving rest))
    | .blockMapping :: rest, true, _ => mappingOf (blockEntries fuel (r.leaving rest))
    | _, _, _ => if described then .ok (.empty tag, r) else .error .missingContent

/-- Reads a node, or nothing in front of one of the given tokens. -/
def nodeOrEmpty (blocks dashes : Bool) (ends : List Token) :
    Nat → Reader → Except Defect (Node × Reader)
  | 0, _ => .error .unclosedCollection
  | fuel + 1, r => if r.nextIsIn ends then .ok (.empty none, r) else node blocks dashes fuel r

/-- Reads the items of a list that a block holds. -/
def blockItems : Nat → Reader → Except Defect (List Node × Reader)
  | 0, _ => .error .unclosedCollection
  | fuel + 1, r =>
    match r.tokens with
    | .blockEntry :: rest => do
      let (n, r) ← nodeOrEmpty true false [.blockEntry, .blockEnd] fuel (r.leaving rest)
      let (more, r) ← blockItems fuel r
      return (n :: more, r)
    | .blockEnd :: rest => .ok ([], r.leaving rest)
    | _ => .error (.misplaced "this item")

/-- Reads the items of a list that is not indented further than the key in front of it. -/
def dashItems : Nat → Reader → Except Defect (List Node × Reader)
  | 0, _ => .error .unclosedCollection
  | fuel + 1, r =>
    match r.tokens with
    | .blockEntry :: rest => do
      let (n, r) ←
        nodeOrEmpty true false [.blockEntry, .key, .value, .blockEnd] fuel (r.leaving rest)
      let (more, r) ← dashItems fuel r
      return (n :: more, r)
    | _ => .ok ([], r)

/-- Reads the entries that a block holds. -/
def blockEntries : Nat → Reader → Except Defect (List (Node × Node) × Reader)
  | 0, _ => .error .unclosedCollection
  | fuel + 1, r =>
    match r.tokens with
    | .key :: rest => do
      let (k, r) ← nodeOrEmpty true true [.key, .value, .blockEnd] fuel (r.leaving rest)
      let (v, r) ← valueOf true [.key, .value, .blockEnd] fuel r
      let (more, r) ← blockEntries fuel r
      return ((k, v) :: more, r)
    | .blockEnd :: rest => .ok ([], r.leaving rest)
    | _ => .error (.misplaced "this entry")

/-- Reads the value of an entry, which can be left out with its colon. -/
def valueOf (blocks : Bool) (ends : List Token) : Nat → Reader → Except Defect (Node × Reader)
  | 0, _ => .error .unclosedCollection
  | fuel + 1, r =>
    match r.tokens with
    | .value :: rest => nodeOrEmpty blocks blocks ends fuel (r.leaving rest)
    | _ => .ok (.empty none, r)

/-- Reads the key of an item that is a single entry, behind its question mark. A sign which shows
that there is no key is used up. -/
def itemKey : Nat → Reader → Except Defect (Node × Reader)
  | 0, _ => .error .unclosedCollection
  | fuel + 1, r =>
    match r.tokens with
    | .value :: rest | .flowEntry :: rest | .flowSequenceEnd :: rest =>
      .ok (.empty none, r.leaving rest)
    | _ => node false false fuel r

/-- Reads the items of a list in brackets. An item can be a single entry. -/
def flowItems (first : Bool) : Nat → Reader → Except Defect (List Node × Reader)
  | 0, _ => .error .unclosedCollection
  | fuel + 1, r =>
    match r.tokens with
    | .flowSequenceEnd :: rest => .ok ([], r.leaving rest)
    | _ => do
      let r ← separated first r
      match r.tokens with
      | .flowSequenceEnd :: rest => return ([], r.leaving rest)
      | .key :: rest =>
        let (k, r) ← itemKey fuel (r.leaving rest)
        let (v, r) ← valueOf false [.flowEntry, .flowSequenceEnd] fuel r
        let (more, r) ← flowItems false fuel r
        return (.mapping [(k, v)] :: more, r)
      | _ =>
        let (n, r) ← node false false fuel r
        let (more, r) ← flowItems false fuel r
        return (n :: more, r)

/-- Reads the entries of a mapping in brackets. A node without a colon is a key without value. -/
def flowEntries (first : Bool) : Nat → Reader → Except Defect (List (Node × Node) × Reader)
  | 0, _ => .error .unclosedCollection
  | fuel + 1, r =>
    match r.tokens with
    | .flowMappingEnd :: rest => .ok ([], r.leaving rest)
    | _ => do
      let r ← separated first r
      match r.tokens with
      | .flowMappingEnd :: rest => return ([], r.leaving rest)
      | .key :: rest =>
        let (k, r) ← nodeOrEmpty false false [.value, .flowEntry, .flowMappingEnd] fuel
          (r.leaving rest)
        let (v, r) ← valueOf false [.flowEntry, .flowMappingEnd] fuel r
        let (more, r) ← flowEntries false fuel r
        return ((k, v) :: more, r)
      | _ =>
        let (k, r) ← node false false fuel r
        let (more, r) ← flowEntries false fuel r
        return ((k, .empty none) :: more, r)

end

/-- Reads the directives in front of a document. Version and handles are given once. -/
def directives (version : Bool) (handles : List (String × Tag)) :
    List Token → Except Defect (Bool × List (String × Tag) × List Token)
  | .directive .version :: rest =>
    if version then .error .directive else directives true handles rest
  | .directive (.tag handle meaning) :: rest =>
    if (handles.lookup handle).isSome then .error .directive
    else directives version ((handle, meaning) :: handles) rest
  | tokens => .ok (version || !handles.isEmpty, handles, tokens)

/-- A document behind the line that starts it. -/
def document (r : Reader) : Except Defect (Node × Reader) :=
  match r.tokens with
  | [] | .documentStart :: _ | .documentEnd :: _ | .directive _ :: _ => .ok (.empty none, r)
  | _ => node true false (4 * r.tokens.length) r

end Reader

/-- The document that tokens make up, if there is one. It can be followed by lines that end it, and
by nothing else. -/
def Document.ofTokens? (tokens : List Token) : Except Defect (Option Document) := do
  if tokens.isEmpty then return none
  let (found, handles, tokens) ← Reader.directives false [] tokens
  let (n, r) ←
    match found, tokens with
    | _, .documentStart :: rest => Reader.document { tokens := rest, handles := handles }
    | true, _ => .error .directive
    | false, _ => Reader.node true false (4 * tokens.length) { tokens := tokens }
  if r.tokens.dropWhile (· == .documentEnd) |>.isEmpty then return some ⟨n, r.named⟩
  else throw .severalDocuments

/-- The document that a text holds, if it holds one. -/
def Document.parse? (text : String) : Except Defect (Option Document) := do
  let tokens ← tokensOf text
  Document.ofTokens? tokens

end Recolor.Yaml
