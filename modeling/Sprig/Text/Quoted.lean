/-!
# Quoted text

Text between double quotes, as dumps and messages write it. The null character, tab, line feed,
carriage return, the quote and the backslash have short escapes; any other character is written as
itself if it is *plain*, and otherwise by its code in hexadecimal. Which characters are plain is a
parameter, so nothing here depends on a table of characters.
-/

namespace Sprig.Text

/-- The code of a character in lower case hexadecimal, without leading zeros. -/
def hexCode (c : Char) : List Char :=
  Nat.toDigits 16 c.toNat

/-- A character inside quotes. -/
def escapeChar (plain : Char → Bool) (c : Char) : List Char :=
  if c = '\x00' then ['\\', '0']
  else if c = '\t' then ['\\', 't']
  else if c = '\n' then ['\\', 'n']
  else if c = '\r' then ['\\', 'r']
  else if c = '"' then ['\\', '"']
  else if c = '\\' then ['\\', '\\']
  else if plain c then [c]
  else '\\' :: 'u' :: '\x7b' :: (hexCode c ++ ['\x7d'])

/-- The characters of a text inside quotes. -/
def escape (plain : Char → Bool) (cs : List Char) : List Char :=
  cs.flatMap (escapeChar plain)

/-- A text between quotes. -/
def quote (plain : Char → Bool) (s : String) : String :=
  "\"" ++ String.ofList (escape plain s.toList) ++ "\""

@[simp] theorem escape_nil (plain : Char → Bool) : escape plain [] = [] := rfl

@[simp] theorem escape_cons (plain : Char → Bool) (c : Char) (cs : List Char) :
    escape plain (c :: cs) = escapeChar plain c ++ escape plain cs := by
  simp [escape]

end Sprig.Text
