import PointerAnalysis.Text.Unprintable

/-! Quoted text. A quoted string stays on one line and ends at its closing quote whatever it
holds: quotes and backslashes are escaped, and so is every character that cannot be seen. -/
namespace PointerAnalysis.Text

/-- A number in lower-case hexadecimal digits. -/
def hexDigits (n : Nat) : List Char := Nat.toDigits 16 n

/-- The form of one character inside quotes. -/
def escapeChar (c : Char) : List Char :=
  if c = '"' then ['\\', '"']
  else if c = '\\' then ['\\', '\\']
  else if c = '\n' then ['\\', 'n']
  else if c = '\t' then ['\\', 't']
  else if c = '\r' then ['\\', 'r']
  else if c.toNat = 0 then ['\\', '0']
  else if isUnprintable c then ['\\', 'u', '\x7b'] ++ hexDigits c.toNat ++ ['\x7d']
  else [c]

def escape (s : List Char) : List Char := s.flatMap escapeChar

/-- A string between quotes. -/
def quoted (s : String) : String :=
  String.ofList ('"' :: escape s.toList ++ ['"'])

end PointerAnalysis.Text
