import VisualNovel.Data.Yaml.Scalar
import VisualNovel.Data.Yaml.Token

/-!
The tree of a document. Reading it from tokens gives every node its tag and puts what an anchor
names in the place of each alias.
-/
namespace VisualNovel.Data.Yaml

inductive Node where
  | scalar (tag : Tag) (text : String)
  | sequence (tag : Tag) (items : List Node)
  | mapping (tag : Tag) (entries : List (Node × Node))
deriving Inhabited

/-- The node of a place where nothing is written. -/
def Node.empty : Node := .scalar .null ""

def standardAddress : String := "tag:yaml.org,2002:"

def Tag.ofAddress (address : String) : Tag :=
  ([("null", .null), ("bool", .bool), ("int", .int), ("float", .float),
    ("timestamp", .timestamp), ("merge", .merge), ("value", .value), ("str", .text),
    ("seq", .sequence), ("map", .mapping)].lookup
      (if address.startsWith standardAddress then (address.drop standardAddress.length).toString
        else "")).getD .unknown

/-- What is known while a document is read: the nodes under anchors, and the meaning of handles. -/
structure Scope where
  anchors : List (String × Node) := []
  handles : List (String × String) := [("!", "!"), ("!!", standardAddress)]

structure Properties where
  anchor : Option String := none
  tag : Option Token := none

def takeProperties : List Token → Properties × List Token
  | .anchor a :: .tag h s :: rest => (⟨some a, some (.tag h s)⟩, rest)
  | .tag h s :: .anchor a :: rest => (⟨some a, some (.tag h s)⟩, rest)
  | .anchor a :: rest => (⟨some a, none⟩, rest)
  | .tag h s :: rest => (⟨none, some (.tag h s)⟩, rest)
  | rest => ({}, rest)

def Scope.address? (s : Scope) : Option String → String → Option String
  | none, suffix => some suffix
  | some handle, suffix => (s.handles.lookup handle).map (· ++ suffix)

/-- The tag of a node: `!` leaves it to the node's own form. -/
def Scope.tag? (s : Scope) (p : Properties) : Option (Option Tag) :=
  match p.tag with
  | some (.tag handle suffix) => do
      let address ← s.address? handle suffix
      some (if address == "!" then none else some (Tag.ofAddress address))
  | _ => some none

def Scope.define? (s : Scope) (anchor : Option String) (node : Node) : Option Scope :=
  match anchor with
  | none => some s
  | some name =>
      if (s.anchors.lookup name).isSome then none
      else some { s with anchors := (name, node) :: s.anchors }

inductive Place where
  /-- Inside of a flow collection. -/
  | flow
  | block
  /-- The key or value of a block mapping, where a sequence needs no depth of its own. -/
  | mappingPart
deriving DecidableEq

/-- The tag of a scalar; one without a tag is plain text when it stands in quotes. -/
def scalarTag (tag : Option Tag) (hasTag isPlain : Bool) (text : String) : Tag :=
  match tag with
  | some t => t
  | none => if isPlain || hasTag then Scalar.impliedTag text else .text

-- In the readers below `fuel` is never smaller than twice the number of tokens left.
mutual

def takeNode? (place : Place) : Nat → Scope → List Token → Option (Node × Scope × List Token)
  | 0, _, _ => none
  | fuel + 1, scope, tokens =>
      match tokens with
      | .alias name :: rest => (scope.anchors.lookup name).map fun node => (node, scope, rest)
      | _ => do
          let (properties, tokens) := takeProperties tokens
          let tag ← scope.tag? properties
          let (node, scope, tokens) ← match tokens with
            | .scalar text isPlain :: rest =>
                some (.scalar (scalarTag tag properties.tag.isSome isPlain text) text, scope, rest)
            | .flowSequenceStart :: rest => do
                let (items, scope, rest) ← takeFlowItems? true fuel scope rest
                some (.sequence (tag.getD .sequence) items, scope, rest)
            | .flowMappingStart :: rest => do
                let (entries, scope, rest) ← takeFlowEntries? true fuel scope rest
                some (.mapping (tag.getD .mapping) entries, scope, rest)
            | .blockEntry :: _ =>
                if place == .mappingPart then do
                  let (items, scope, rest) ← takeBlockItems? false fuel scope tokens
                  some (.sequence (tag.getD .sequence) items, scope, rest)
                else emptyNode? properties tag scope tokens
            | .blockSequenceStart :: rest =>
                if place == .flow then emptyNode? properties tag scope tokens
                else do
                  let (items, scope, rest) ← takeBlockItems? true fuel scope rest
                  some (.sequence (tag.getD .sequence) items, scope, rest)
            | .blockMappingStart :: rest =>
                if place == .flow then emptyNode? properties tag scope tokens
                else do
                  let (entries, scope, rest) ← takeBlockEntries? fuel scope rest
                  some (.mapping (tag.getD .mapping) entries, scope, rest)
            | _ => emptyNode? properties tag scope tokens
          return (node, ← scope.define? properties.anchor node, tokens)

/-- Properties without a node belong to an empty scalar. -/
def emptyNode? (properties : Properties) (tag : Option Tag) (scope : Scope)
    (tokens : List Token) : Option (Node × Scope × List Token) :=
  if properties.anchor.isSome || properties.tag.isSome then
    some (.scalar (scalarTag tag properties.tag.isSome true "") "", scope, tokens)
  else none

/-- The items of a block sequence. One without depth of its own has no token at its end. -/
def takeBlockItems? (isDeep : Bool) : Nat → Scope → List Token →
    Option (List Node × Scope × List Token)
  | 0, _, _ => none
  | fuel + 1, scope, .blockEntry :: rest => do
      let isEmpty := match rest with
        | .blockEntry :: _ => true
        | .blockEnd :: _ => true
        | .key :: _ => !isDeep
        | .value :: _ => !isDeep
        | _ => false
      let (item, scope, rest) ←
        if isEmpty then some (Node.empty, scope, rest) else takeNode? .block fuel scope rest
      let (items, scope, rest) ← takeBlockItems? isDeep fuel scope rest
      some (item :: items, scope, rest)
  | _, scope, .blockEnd :: rest =>
      if isDeep then some ([], scope, rest) else some ([], scope, .blockEnd :: rest)
  | _, scope, rest => if isDeep then none else some ([], scope, rest)

/-- The key or the value of an entry, or an empty node where the entry goes on without. -/
def takeBlockPart? : Nat → Scope → List Token → Option (Node × Scope × List Token)
  | 0, _, _ => none
  | fuel + 1, scope, tokens =>
      match tokens with
      | .key :: _ => some (Node.empty, scope, tokens)
      | .value :: _ => some (Node.empty, scope, tokens)
      | .blockEnd :: _ => some (Node.empty, scope, tokens)
      | _ => takeNode? .mappingPart fuel scope tokens

def takeBlockEntries? : Nat → Scope → List Token →
    Option (List (Node × Node) × Scope × List Token)
  | 0, _, _ => none
  | fuel + 1, scope, .key :: rest => do
      let (key, scope, rest) ← takeBlockPart? fuel scope rest
      let (value, scope, rest) ← match rest with
        | .value :: rest => takeBlockPart? fuel scope rest
        | _ => some (Node.empty, scope, rest)
      let (entries, scope, rest) ← takeBlockEntries? fuel scope rest
      some ((key, value) :: entries, scope, rest)
  | _, scope, .blockEnd :: rest => some ([], scope, rest)
  | _, _, _ => none

/-- The key or the value of an entry in a flow collection. -/
def takeFlowPart? (mayMeetValue : Bool) : Nat → Scope → List Token →
    Option (Node × Scope × List Token)
  | 0, _, _ => none
  | fuel + 1, scope, tokens =>
      match tokens with
      | .value :: _ =>
          if mayMeetValue then some (Node.empty, scope, tokens)
          else takeNode? .flow fuel scope tokens
      | .flowEntry :: _ => some (Node.empty, scope, tokens)
      | .flowSequenceEnd :: _ => some (Node.empty, scope, tokens)
      | .flowMappingEnd :: _ => some (Node.empty, scope, tokens)
      | _ => takeNode? .flow fuel scope tokens

def takeFlowEntry? : Nat → Scope → List Token → Option ((Node × Node) × Scope × List Token)
  | 0, _, _ => none
  | fuel + 1, scope, tokens => do
      let (key, scope, rest) ← takeFlowPart? true fuel scope tokens
      let (value, scope, rest) ← match rest with
        | .value :: rest => takeFlowPart? false fuel scope rest
        | _ => some (Node.empty, scope, rest)
      some ((key, value), scope, rest)

/-- The items of a flow sequence; an entry among them is a mapping of its own. -/
def takeFlowItems? (isFirst : Bool) : Nat → Scope → List Token →
    Option (List Node × Scope × List Token)
  | 0, _, _ => none
  | _, scope, .flowSequenceEnd :: rest => some ([], scope, rest)
  | fuel + 1, scope, tokens => do
      let tokens ← match isFirst, tokens with
        | true, _ => some tokens
        | false, .flowEntry :: rest => some rest
        | false, _ => none
      match tokens with
      | .flowSequenceEnd :: rest => some ([], scope, rest)
      | .key :: rest => do
          let (entry, scope, rest) ← takeFlowEntry? fuel scope rest
          let (items, scope, rest) ← takeFlowItems? false fuel scope rest
          some (.mapping .mapping [entry] :: items, scope, rest)
      | _ => do
          let (item, scope, rest) ← takeNode? .flow fuel scope tokens
          let (items, scope, rest) ← takeFlowItems? false fuel scope rest
          some (item :: items, scope, rest)

/-- The entries of a flow mapping; a node without a key mark is a key without a value. -/
def takeFlowEntries? (isFirst : Bool) : Nat → Scope → List Token →
    Option (List (Node × Node) × Scope × List Token)
  | 0, _, _ => none
  | _, scope, .flowMappingEnd :: rest => some ([], scope, rest)
  | fuel + 1, scope, tokens => do
      let tokens ← match isFirst, tokens with
        | true, _ => some tokens
        | false, .flowEntry :: rest => some rest
        | false, _ => none
      match tokens with
      | .flowMappingEnd :: rest => some ([], scope, rest)
      | .key :: rest => do
          let (entry, scope, rest) ← takeFlowEntry? fuel scope rest
          let (entries, scope, rest) ← takeFlowEntries? false fuel scope rest
          some (entry :: entries, scope, rest)
      | _ => do
          let (key, scope, rest) ← takeNode? .flow fuel scope tokens
          let (entries, scope, rest) ← takeFlowEntries? false fuel scope rest
          some ((key, Node.empty) :: entries, scope, rest)

end

/-- The directives in front of a document. Only version 1 is read, and a handle is explained at
most once. -/
def takeDirectives? (seenVersion : Bool) (handles : List (String × String)) :
    List Token → Option (List (String × String) × List Token)
  | .directive (.version major) :: rest =>
      if seenVersion || major != 1 then none else takeDirectives? true handles rest
  | .directive (.tagHandle handle expansion) :: rest =>
      if (handles.lookup handle).isSome then none
      else takeDirectives? seenVersion ((handle, expansion) :: handles) rest
  | .directive .other :: rest => takeDirectives? seenVersion handles rest
  | rest => some (handles, rest)

def skipDocumentEnds : List Token → List Token
  | .documentEnd :: rest => skipDocumentEnds rest
  | rest => rest

def takeBody? (fuel : Nat) (scope : Scope) (tokens : List Token) :
    Option (Node × Scope × List Token) :=
  match tokens with
  | [] => some (Node.empty, scope, tokens)
  | .directive _ :: _ => some (Node.empty, scope, tokens)
  | .documentStart :: _ => some (Node.empty, scope, tokens)
  | .documentEnd :: _ => some (Node.empty, scope, tokens)
  | _ => takeNode? .block fuel scope tokens

/-- The node of a text that holds one document, or none for a text without any. -/
def Node.ofTokens? (tokens : List Token) : Option (Option Node) := do
  let fuel := 2 * tokens.length + 4
  let (node, rest) ← match tokens with
    | [] => return none
    | .directive _ :: _ => explicit fuel tokens
    | .documentStart :: _ => explicit fuel tokens
    | _ => do
        let (node, _, rest) ← takeNode? .block fuel {} tokens
        some (node, rest)
  if (skipDocumentEnds rest).isEmpty then return some node else none
where
  explicit (fuel : Nat) (tokens : List Token) : Option (Node × List Token) := do
    let (handles, rest) ← takeDirectives? false [] tokens
    match rest with
    | .documentStart :: rest => do
        let scope : Scope := {}
        let scope := { scope with handles := handles ++ scope.handles }
        let (node, _, rest) ← takeBody? fuel scope rest
        some (node, rest)
    | _ => none

def Node.entries? : Node → Option (List (Node × Node))
  | mapping _ entries => some entries
  | _ => none

/-- The entries a merge key brings in. Of several mappings the first has the last word, so it
comes last. -/
def mergedEntries? : Node → Option (List (Node × Node))
  | .mapping _ entries => some entries
  | .sequence _ items => (items.mapM Node.entries?).map fun parts => parts.reverse.flatten
  | .scalar .. => none

/-- The entries of a mapping with the ones its merge keys bring in, which come first. -/
def mergeEntries? (entries : List (Node × Node)) : Option (List (Node × Node)) := do
  let isMerge (entry : Node × Node) : Bool := match entry.1 with
    | .scalar .merge _ => true
    | _ => false
  let brought ← (entries.filter isMerge).mapM fun entry => mergedEntries? entry.2
  let own := (entries.filter (!isMerge ·)).map fun (key, value) =>
    match key with
    | .scalar .value text => (Node.scalar .text text, value)
    | _ => (key, value)
  return brought.flatten ++ own

mutual

def Node.merge? : Node → Option Node
  | .scalar tag text => some (.scalar tag text)
  | .sequence tag items => (mergeItems? items).map (.sequence tag)
  | .mapping tag entries => do
      let entries ← mergeParts? entries
      (mergeEntries? entries).map (.mapping tag)

def mergeItems? : List Node → Option (List Node)
  | [] => some []
  | item :: rest => do
      let item ← item.merge?
      (mergeItems? rest).map (item :: ·)

def mergeParts? : List (Node × Node) → Option (List (Node × Node))
  | [] => some []
  | (key, value) :: rest => do
      let key ← key.merge?
      let value ← value.merge?
      (mergeParts? rest).map ((key, value) :: ·)

end

end VisualNovel.Data.Yaml
