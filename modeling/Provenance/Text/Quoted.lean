import Provenance.Text.Digits
import Provenance.Text.Printable

/-!
# Quoted texts

A text shown inside a message stands between double quotes. Quotes, backslashes and line controls have
short escapes; a character that cannot be shown as itself is written by its code point. The single
quote is not escaped.
-/

namespace Provenance.Text

/-- A character as it stands inside a quoted text. -/
def quoteChar (c : Char) : List Char :=
  if c = '"' then ['\\', '"']
  else if c = '\\' then ['\\', '\\']
  else if c = '\n' then ['\\', 'n']
  else if c = '\r' then ['\\', 'r']
  else if c = '\t' then ['\\', 't']
  else if c = Char.ofNat 0 then ['\\', '0']
  else if standsAlone c then [c]
  else ['\\', 'u', '{'] ++ Digits.hex c.toNat ++ ['}']

/-- A text between double quotes. -/
def quoted (s : String) : String :=
  String.ofList (['"'] ++ s.toList.flatMap quoteChar ++ ['"'])

end Provenance.Text
