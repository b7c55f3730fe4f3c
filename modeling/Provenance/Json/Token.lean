import Provenance.Json.Basic

/-!
# The tokens of a JSON text

A text is read one character at a time. `Scan` is what has been read of the token that is not finished
yet; a step takes the next character and gives the tokens that it completes. A numeral or a word ends
with the first character that cannot continue it, and that character starts what comes next.
-/

namespace Provenance.Json

/-- A mark, or a complete value that is no array and no object. -/
inductive Token where
  | openArray
  | closeArray
  | openObject
  | closeObject
  | colon
  | comma
  | leaf (value : Json)

/-- The token that is being read. Characters already read stand last first. -/
inductive Scan where
  /-- Between two tokens. -/
  | between
  /-- Inside one of the words. -/
  | word (read : List Char)
  /-- Inside a numeral. -/
  | numeral (read : List Char)
  /-- Inside a text, which is `whole` so long as it is a sequence of characters. -/
  | text (read : List Char) (whole : Bool)
  /-- After a backslash; `high` is the first half of a pair of code units. -/
  | escape (read : List Char) (whole : Bool) (high : Option Nat)
  /-- Inside the four digits of a code unit. -/
  | unit (read : List Char) (whole : Bool) (high : Option Nat) (digits : List Char)
  /-- After the first half of a pair, whose second half must follow. -/
  | half (read : List Char) (whole : Bool) (high : Nat)

/-- Whether a character separates tokens. -/
def isSpace (c : Char) : Bool := c = ' ' || c = '\n' || c = '\t' || c = '\r'

/-- Whether a character can stand in a numeral. -/
def inNumeral (c : Char) : Bool :=
  Text.Digits.isDigit c || c = '-' || c = '+' || c = '.' || c = 'e' || c = 'E'

/-- Whether a character can stand in a word. -/
def inWord (c : Char) : Bool := 97 ≤ c.toNat && c.toNat ≤ 122

/-- The value that a word stands for. -/
def ofWord? (word : List Char) : Option Json :=
  if word = ['n', 'u', 'l', 'l'] then some .null
  else if word = ['t', 'r', 'u', 'e'] then some (.bool true)
  else if word = ['f', 'a', 'l', 's', 'e'] then some (.bool false)
  else none

/-- The digits in front of a text and what follows them. -/
def takeDigits (cs : List Char) : List Char × List Char :=
  (cs.takeWhile Text.Digits.isDigit, cs.dropWhile Text.Digits.isDigit)

/-- The exponent of a numeral, if it is written as one. -/
def exponent? (cs : List Char) : Option Int :=
  let digits (cs : List Char) : Option Nat :=
    if cs ≠ [] ∧ cs.all Text.Digits.isDigit then some (Text.Digits.read cs) else none
  match cs with
  | '-' :: cs => (digits cs).map fun n => -(n : Int)
  | '+' :: cs => (digits cs).map fun n => (n : Int)
  | cs => (digits cs).map fun n => (n : Int)

/-- The number that a fraction stands for. -/
def ofFraction (negative : Bool) (whole fraction : List Char) (exponent : Int) : Json :=
  match Number.Double.ofParts? negative (Text.Digits.read (whole ++ fraction))
      (exponent - fraction.length) with
  | some x => .float x
  | none => .unreadable

/-- The number that a row of digits stands for: an integer if it is one that can be held. There is no
negative integer zero. -/
def ofDigits (negative : Bool) (digits : List Char) : Json :=
  let n : Int := Text.Digits.read digits
  if negative then
    if n = 0 ∨ -n < leastInt then ofFraction negative digits [] 0 else .int (-n)
  else if n < intBound then .int n
  else ofFraction negative digits [] 0

/-- The number that a numeral without its sign stands for. -/
def ofMagnitude? (negative : Bool) (cs : List Char) : Option Json :=
  let (whole, rest) := takeDigits cs
  if whole = [] ∨ (whole.head? = some '0' ∧ whole.length ≠ 1) then none
  else
    match rest with
    | [] => some (ofDigits negative whole)
    | '.' :: rest =>
      let (fraction, rest) := takeDigits rest
      if fraction = [] then none
      else
        match rest with
        | [] => some (ofFraction negative whole fraction 0)
        | c :: rest =>
          if c = 'e' ∨ c = 'E' then (exponent? rest).map (ofFraction negative whole fraction)
          else none
    | c :: rest =>
      if c = 'e' ∨ c = 'E' then (exponent? rest).map (ofFraction negative whole [])
      else none

/-- The number that a numeral stands for. -/
def ofNumeral? : List Char → Option Json
  | '-' :: cs => ofMagnitude? true cs
  | cs => ofMagnitude? false cs

/-- The start of a token. -/
def start? (c : Char) : Option (Scan × List Token) :=
  if isSpace c then some (.between, [])
  else if c = '[' then some (.between, [.openArray])
  else if c = ']' then some (.between, [.closeArray])
  else if c = '{' then some (.between, [.openObject])
  else if c = '}' then some (.between, [.closeObject])
  else if c = ':' then some (.between, [.colon])
  else if c = ',' then some (.between, [.comma])
  else if c = '"' then some (.text [] true, [])
  else if inNumeral c then some (.numeral [c], [])
  else if inWord c then some (.word [c], [])
  else none

/-- The character that an escape with one letter stands for. -/
def ofEscape? (c : Char) : Option Char :=
  if c = '"' ∨ c = '\\' ∨ c = '/' then some c
  else if c = 'b' then some (Char.ofNat 8)
  else if c = 'f' then some (Char.ofNat 12)
  else if c = 'n' then some '\n'
  else if c = 'r' then some '\r'
  else if c = 't' then some '\t'
  else none

/-- The text that a finished row of characters makes. -/
def ofText (read : List Char) (whole : Bool) : Json :=
  if whole then .text (String.ofList read.reverse) else .unreadable

/-- The scan after a code unit: a first half waits for its second, and a second half alone, or a first
one followed by something else, is no character. -/
def afterUnit (read : List Char) (whole : Bool) (high : Option Nat) (unit : Nat) : Scan :=
  let isLow := 0xDC00 ≤ unit ∧ unit < 0xE000
  let isHigh := 0xD800 ≤ unit ∧ unit < 0xDC00
  match high with
  | some high =>
    if isLow then
      .text (Char.ofNat (0x10000 + (high - 0xD800) * 0x400 + (unit - 0xDC00)) :: read) whole
    else .text read false
  | none =>
    if isHigh then .half read whole unit
    else if isLow then .text read false
    else .text (Char.ofNat unit :: read) whole

/-- One more character inside a text. -/
def stepText? (read : List Char) (whole : Bool) (c : Char) : Option (Scan × List Token) :=
  if c = '"' then some (.between, [.leaf (ofText read whole)])
  else if c = '\\' then some (.escape read whole none, [])
  else if c.toNat < 32 then none
  else some (.text (c :: read) whole, [])

/-- One more character. -/
def step? (scan : Scan) (c : Char) : Option (Scan × List Token) :=
  match scan with
  | .between => start? c
  | .word read =>
    if inWord c then some (.word (c :: read), [])
    else do
      let value ← ofWord? read.reverse
      let (scan, tokens) ← start? c
      pure (scan, .leaf value :: tokens)
  | .numeral read =>
    if inNumeral c then some (.numeral (c :: read), [])
    else do
      let value ← ofNumeral? read.reverse
      let (scan, tokens) ← start? c
      pure (scan, .leaf value :: tokens)
  | .text read whole => stepText? read whole c
  | .escape read whole high =>
    if c = 'u' then some (.unit read whole high [], [])
    else do
      let escaped ← ofEscape? c
      pure (.text (escaped :: read) (whole && high.isNone), [])
  | .unit read whole high digits => do
    let _ ← Text.Digits.hexValue? c
    if digits.length < 3 then pure (.unit read whole high (digits ++ [c]), [])
    else
      let unit ← Text.Digits.readHex? (digits ++ [c])
      pure (afterUnit read whole high unit, [])
  | .half read whole high =>
    if c = '\\' then some (.escape read whole (some high), [])
    else stepText? read false c

/-- The token that the end of the text completes. -/
def finish? : Scan → Option (List Token)
  | .between => some []
  | .word read => (ofWord? read.reverse).map fun value => [.leaf value]
  | .numeral read => (ofNumeral? read.reverse).map fun value => [.leaf value]
  | _ => none

/-- The tokens of the rest of a text. -/
def scan? (scan : Scan) : List Char → Option (List Token)
  | [] => finish? scan
  | c :: rest => do
    let (next, tokens) ← step? scan c
    let later ← scan? next rest
    pure (tokens ++ later)

/-- The tokens of a text. -/
def tokens? (cs : List Char) : Option (List Token) := scan? .between cs

end Provenance.Json
