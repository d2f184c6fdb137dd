import VisualNovel.Text.Blank
import VisualNovel.Text.DigitTables

/-!
Digits of any writing system, and the whole numbers written with them.
-/
namespace VisualNovel.Text

/-- The value of a decimal digit of any script. -/
def decimalDigit? (c : Char) : Option Nat :=
  let n := c.toNat
  (decimalZeros.find? fun start => start ≤ n && n < start + 10).map (n - ·)

/-- Digits in the wide sense: superscripts and circled figures count. -/
def isDigit (c : Char) : Bool :=
  (decimalDigit? c).isSome ||
    otherDigits.any fun (first, last) => first ≤ c.toNat && c.toNat ≤ last

def allDigits (s : String) : Bool := !s.isEmpty && s.toList.all isDigit

/-- Digits with a single `_` allowed between two of them; `total` is the number read so far. -/
def digitsValue (digit? : Char → Option Nat) (base total : Nat) : List Char → Option Nat
  | [] => some total
  | '_' :: c :: rest =>
      (digit? c).bind fun d => digitsValue digit? base (total * base + d) rest
  | c :: rest => (digit? c).bind fun d => digitsValue digit? base (total * base + d) rest

def digitsNat? (digit? : Char → Option Nat) (base : Nat) : List Char → Option Nat
  | [] => none
  | c :: rest => (digit? c).bind fun d => digitsValue digit? base d rest

def signed? (natural? : List Char → Option Nat) : List Char → Option Int
  | '+' :: rest => (natural? rest).map Int.ofNat
  | '-' :: rest => (natural? rest).map fun n => -Int.ofNat n
  | cs => (natural? cs).map Int.ofNat

/-- The most digits of a whole number that is read from a text or written as one. -/
def digitLimit : Nat := 4300

def excessMessage (count : Nat) : String :=
  s!"Exceeds the limit ({digitLimit} digits) for integer string conversion: value has {count} " ++
    "digits; use sys.set_int_max_str_digits() to increase the limit"

/-- How many digits a number has, if they are too many. What follows them is not looked at. -/
def excess? (s : String) : Option Nat :=
  let digits := match trimChars s.toList with
    | '+' :: rest | '-' :: rest => rest
    | cs => cs
  let run := digits.takeWhile fun c => c == '_' || (decimalDigit? c).isSome
  let count := (run.filter (· != '_')).length
  if digitLimit < count then some count else none

/-- A whole number as a person types it: blanks around it, a sign, digits of any script. -/
def integer? (s : String) : Option Int :=
  if (excess? s).isSome then none
  else signed? (digitsNat? decimalDigit? 10) (trimChars s.toList)

def asciiDigit? (c : Char) : Option Nat :=
  if '0' ≤ c ∧ c ≤ '9' then some (c.toNat - 48) else none

def isAsciiDigit (c : Char) : Bool := (asciiDigit? c).isSome

def digitsToNat (digits : List Char) : Nat := digits.foldl (fun n c => n * 10 + (c.toNat - 48)) 0

def hexDigit? (c : Char) : Option Nat :=
  if '0' ≤ c ∧ c ≤ '9' then some (c.toNat - 48)
  else if 'a' ≤ c ∧ c ≤ 'f' then some (c.toNat - 87)
  else if 'A' ≤ c ∧ c ≤ 'F' then some (c.toNat - 55)
  else none

/-- `n` written with at least `width` decimal digits. -/
def padded (width n : Nat) : String :=
  let digits := toString n
  String.ofList (List.replicate (width - digits.length) '0') ++ digits

/-- `n` written with at least `width` hexadecimal digits. -/
def paddedHex (width n : Nat) : String :=
  let digits := Nat.toDigits 16 n
  String.ofList (List.replicate (width - digits.length) '0' ++ digits)

end VisualNovel.Text
