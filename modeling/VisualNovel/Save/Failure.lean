import VisualNovel.Data.Json.Writer
import VisualNovel.Fault

/-!
Why the saves cannot be read or written: a fault that is reported as one, or a limit of the texts
themselves, which nothing on the way turns into a report.
-/
namespace VisualNovel.Save

open Data

inductive Failure where
  | fault (f : Fault)
  | unreadable (limit : Json.ReadLimit)
  | unwritable (limit : Json.WriteLimit)
  | unencodable (u : Text.Unencodable)
deriving Inhabited

namespace Failure

def message : Failure → String
  | fault f => f.message
  | unreadable limit => limit.message
  | unwritable limit => limit.message
  | unencodable u => u.message

def isDepth : Failure → Bool
  | unreadable (.depth _) | unwritable .depth => true
  | _ => false

end Failure

end VisualNovel.Save
