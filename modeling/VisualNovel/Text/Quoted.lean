import VisualNovel.Text.Digits
import VisualNovel.Text.PrintableTable

/-!
A text between quotes, as it is shown inside error messages and lists. Single quotes are the
default; a text with a single quote and no double quote goes between double quotes.
-/
namespace VisualNovel.Text

def isPrintable (c : Char) : Bool :=
  if c.toNat < 128 then 32 ≤ c.toNat && c.toNat < 127
  else !unprintableRuns.any fun (first, last) => first ≤ c.toNat && c.toNat ≤ last

/-- The shortest of the three numeric escapes that holds the character. -/
def numericEscape (c : Char) : String :=
  let n := c.toNat
  if n < 0x100 then "\\x" ++ paddedHex 2 n
  else if n < 0x10000 then "\\u" ++ paddedHex 4 n
  else "\\U" ++ paddedHex 8 n

def quotedChar (quote c : Char) : String :=
  if c == quote || c == '\\' then String.ofList ['\\', c]
  else if c == '\n' then "\\n"
  else if c == '\r' then "\\r"
  else if c == '\t' then "\\t"
  else if isPrintable c then c.toString
  else numericEscape c

def quoteFor (s : String) : Char :=
  if s.toList.contains '\'' && !s.toList.contains '"' then '"' else '\''

def quoted (s : String) : String :=
  let quote := quoteFor s
  quote.toString ++ String.join (s.toList.map (quotedChar quote)) ++ quote.toString

end VisualNovel.Text
