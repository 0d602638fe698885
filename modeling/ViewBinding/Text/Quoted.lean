import ViewBinding.Text.Printable

/-!
# Quoted text

Two ways of writing a text between double quotes. `Quoted.json` follows the grammar of JSON strings:
quotes, backslashes and controls are escaped and all else is raw. `Quoted.shown` is for people: what
cannot be printed is spelled by its code point.
-/

namespace ViewBinding.Text.Quoted

/-- The hexadecimal digits of a code point, in lower case. -/
def hex (n : Nat) : List Char :=
  Nat.toDigits 16 n

/-- A character as it stands in a JSON string. -/
def jsonChar (c : Char) : List Char :=
  match c with
  | '"' => ['\\', '"']
  | '\\' => ['\\', '\\']
  | '\n' => ['\\', 'n']
  | '\r' => ['\\', 'r']
  | '\t' => ['\\', 't']
  | '\x08' => ['\\', 'b']
  | '\x0c' => ['\\', 'f']
  | c =>
    if c.toNat < 16 then ['\\', 'u', '0', '0', '0'] ++ hex c.toNat
    else if c.toNat < 32 then ['\\', 'u', '0', '0'] ++ hex c.toNat
    else [c]

/-- A character as it is shown to people. -/
def shownChar (c : Char) : List Char :=
  match c with
  | '"' => ['\\', '"']
  | '\\' => ['\\', '\\']
  | '\n' => ['\\', 'n']
  | '\r' => ['\\', 'r']
  | '\t' => ['\\', 't']
  | '\x00' => ['\\', '0']
  | c => if isPrintable c then [c] else ['\\', 'u', '\x7b'] ++ hex c.toNat ++ ['\x7d']

/-- The text between quotes, every character written by `write`. -/
def enclose (write : Char → List Char) (text : String) : String :=
  String.ofList ('"' :: (text.toList.flatMap write ++ ['"']))

/-- The text as a JSON string. -/
def json (text : String) : String :=
  enclose jsonChar text

/-- The text as it is shown to people. -/
def shown (text : String) : String :=
  enclose shownChar text

end ViewBinding.Text.Quoted
