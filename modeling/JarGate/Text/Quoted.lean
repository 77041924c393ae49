import JarGate.Text.Hex
import JarGate.Text.Printable

/-!
# Quoted text

Messages show the text they complain about between double quotes. The quote, the backslash and the
usual control characters have short escapes; any other character that would not be seen is spelled
by its number, as in `\u{7f}`.
-/

namespace JarGate.Text.Quoted

/-- How one character is written inside the quotes. -/
def escape (c : Char) : List Char :=
  if c = '"' then ['\\', '"']
  else if c = '\\' then ['\\', '\\']
  else if c = '\n' then ['\\', 'n']
  else if c = '\r' then ['\\', 'r']
  else if c = '\t' then ['\\', 't']
  else if c = Char.ofNat 0 then ['\\', '0']
  else if Printable.isShown c then [c]
  else ['\\', 'u', '\x7b'] ++ (Hex.ofNat c.toNat).toList ++ ['\x7d']

/-- The text between quotes. -/
def quote (s : String) : String :=
  String.ofList ('"' :: s.toList.flatMap escape ++ ['"'])

end JarGate.Text.Quoted
