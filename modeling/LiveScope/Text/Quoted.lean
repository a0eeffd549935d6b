import LiveScope.Text.Printable

/-!
# Quoted texts

The form in which diagnostics show a text constant: in double quotes, with a backslash before
quotes and backslashes, short escapes for the usual control characters, and the code point in
braces for whatever cannot be shown as it is.
-/

namespace LiveScope.Text

/-- A character inside double quotes. -/
def escape (c : Char) : List Char :=
  match c with
  | '\x00' => ['\\', '0']
  | '\t' => ['\\', 't']
  | '\r' => ['\\', 'r']
  | '\n' => ['\\', 'n']
  | '"' => ['\\', '"']
  | '\\' => ['\\', '\\']
  | c =>
    if isPrintable c then [c]
    else ['\\', 'u', '\x7b'] ++ Nat.toDigits 16 c.toNat ++ ['\x7d']

/-- The text in double quotes. -/
def quoted (s : String) : String := String.ofList ('"' :: s.toList.flatMap escape ++ ['"'])

end LiveScope.Text
