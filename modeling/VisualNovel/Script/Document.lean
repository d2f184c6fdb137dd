import VisualNovel.Data.Value
import VisualNovel.Script.Compile

/-!
Scripts and diagnostics as plain data, field by field, ready to be written as JSON.
-/
namespace VisualNovel

open Data

def Number.toValue : Number → Value
  | .whole n => .int n
  | .float bits => .float (Float.ofBits bits)

def optionalText (s : Option String) : Value := s.elim .null .text

def fields (entries : List (String × Value)) : Value :=
  .map (entries.map fun (k, v) => (.text k, v))

def Sprite.toValue (s : Sprite) : Value :=
  fields [("image", .text s.image), ("position", .text s.position.name),
    ("opacity", s.opacity.toValue)]

def Choice.toValue (c : Choice) : Value :=
  fields [("text", .text c.text), ("target_id", .text c.target), ("style", .text c.style.name)]

def Node.toValue (n : Node) : Value :=
  fields [("id", .text n.id), ("text", .text n.text), ("speaker", optionalText n.speaker),
    ("background", optionalText n.background), ("cg", optionalText n.cg),
    ("video", optionalText n.video), ("sprites", .list (n.sprites.map Sprite.toValue)),
    ("next_id", optionalText n.next), ("choices", .list (n.choices.map Choice.toValue)),
    ("effect", optionalText (n.effect.map Effect.name))]

def Diagnostic.toValue (d : Diagnostic) : Value :=
  fields [("severity", .text d.severity.name), ("code", .text d.code),
    ("message", .text d.message), ("line_number", d.lineNumber.elim .null .int),
    ("line", optionalText d.line)]

def Compilation.toValue (c : Compilation) : Value :=
  fields [("start_id", .text c.script.startId),
    ("nodes", fields (c.script.nodes.entries.map fun (id, n) => (id, n.toValue))),
    ("diagnostics", .list (c.diagnostics.map Diagnostic.toValue))]

end VisualNovel
