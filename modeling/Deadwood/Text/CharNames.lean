/-!
# Names of characters

A character can be called by the name that it has in the standard, capital or not. The names are data that comes from elsewhere;
those of ASCII stand here.
-/

set_option autoImplicit false
namespace Deadwood.Text

abbrev CharNames := String → Option Char

def asciiSigns : List (String × Char) :=
  [("SPACE", ' '), ("EXCLAMATION MARK", '!'), ("QUOTATION MARK", '"'), ("NUMBER SIGN", '#'), ("DOLLAR SIGN", '$'),
   ("PERCENT SIGN", '%'), ("AMPERSAND", '&'), ("APOSTROPHE", '\''), ("LEFT PARENTHESIS", '('), ("RIGHT PARENTHESIS", ')'),
   ("ASTERISK", '*'), ("PLUS SIGN", '+'), ("COMMA", ','), ("HYPHEN-MINUS", '-'), ("FULL STOP", '.'), ("SOLIDUS", '/'),
   ("COLON", ':'), ("SEMICOLON", ';'), ("LESS-THAN SIGN", '<'), ("EQUALS SIGN", '='), ("GREATER-THAN SIGN", '>'),
   ("QUESTION MARK", '?'), ("COMMERCIAL AT", '@'), ("LEFT SQUARE BRACKET", '['), ("REVERSE SOLIDUS", '\\'),
   ("RIGHT SQUARE BRACKET", ']'), ("CIRCUMFLEX ACCENT", '^'), ("LOW LINE", '_'), ("GRAVE ACCENT", Char.ofNat 96),
   ("LEFT CURLY BRACKET", '{'), ("VERTICAL LINE", '|'), ("RIGHT CURLY BRACKET", '}'), ("TILDE", '~')]

def digitNames : List String :=
  ["ZERO", "ONE", "TWO", "THREE", "FOUR", "FIVE", "SIX", "SEVEN", "EIGHT", "NINE"]

def asciiNames : CharNames := fun name =>
  match (name.toList.map Char.toUpper : List Char) |> String.ofList |>.splitOn " " with
  | ["DIGIT", digit] => (digitNames.idxOf? digit).map fun value => Char.ofNat (48 + value)
  | ["LATIN", "CAPITAL", "LETTER", letter] => letter.toList.head?.filter fun c => letter.length = 1 && c.isUpper
  | ["LATIN", "SMALL", "LETTER", letter] =>
    (letter.toList.head?.filter fun c => letter.length = 1 && c.isUpper).map Char.toLower
  | _ => asciiSigns.lookup (String.ofList (name.toList.map Char.toUpper))

end Deadwood.Text
