import VisualNovel.Data.Yaml.Node

/-!
Reading YAML documents. Only plain data has a value; of a repeated key the last value counts, at the
place of the first.
-/
namespace VisualNovel.Data.Yaml

def isKey : Value → Bool
  | .list _ => false
  | .map _ => false
  | _ => true

mutual

def Node.value : Node → Except Fault Value
  | .scalar tag text => Scalar.value tag text
  | .sequence tag items =>
      if tag == .sequence then (values items).map .list else .error .malformed
  | .mapping tag entries =>
      if tag == .mapping then (entryValues [] entries).map .map else .error .malformed

def values : List Node → Except Fault (List Value)
  | [] => .ok []
  | item :: rest => do
      let value ← item.value
      return value :: (← values rest)

def entryValues (read : List (Value × Value)) :
    List (Node × Node) → Except Fault (List (Value × Value))
  | [] => .ok read
  | (key, value) :: rest => do
      let key ← key.value
      if !isKey key then .error .malformed
      else
        let value ← value.value
        entryValues (Value.putEntry key value read) rest

end

/-- The value of a document; an empty one is null. -/
def read (s : String) : Except Fault Value :=
  match (tokens? s.toList).bind Node.ofTokens? with
  | none => .error .malformed
  | some none => .ok .null
  | some (some node) =>
      match node.merge? with
      | some node => node.value
      | none => .error .malformed

end VisualNovel.Data.Yaml
