/-!
# Words of a command line

A command line is cut into words at white space outside of quotes. Single quotes keep everything, double
quotes let a backslash stand before a quote or a backslash, and outside of quotes a backslash keeps the next
character. `quote` writes a word so that it is read back as one.
-/

set_option autoImplicit false
namespace Deadwood.Shell

/-- Why a command line has no words that a command could be given. -/
inductive WordsError where
  | noClosingQuotation
  | noEscapedCharacter
  deriving Repr, DecidableEq

def WordsError.message : WordsError → String
  | noClosingQuotation => "No closing quotation"
  | noEscapedCharacter => "No escaped character"

def isSeparator (c : Char) : Bool :=
  c == ' ' || c == '\t' || c == '\r' || c == '\n'

/-- Where the reader is: between words, in a word outside of quotes, in quotes, or after a backslash, inside
double quotes or not. -/
inductive Position where
  | between
  | bare
  | quoted (quote : Char)
  | escaped (inQuotes : Bool)
  deriving Repr, DecidableEq

def wordsFrom : Position → List Char → List Char → Except WordsError (List String)
  | .between, _, [] => .ok []
  | .bare, word, [] => .ok [String.ofList word.reverse]
  | .quoted _, _, [] => .error .noClosingQuotation
  | .escaped _, _, [] => .error .noEscapedCharacter
  | .between, _, c :: rest =>
    if isSeparator c then wordsFrom .between [] rest
    else if c == '\\' then wordsFrom (.escaped false) [] rest
    else if c == '\'' || c == '"' then wordsFrom (.quoted c) [] rest
    else wordsFrom .bare [c] rest
  | .bare, word, c :: rest =>
    if isSeparator c then (String.ofList word.reverse :: ·) <$> wordsFrom .between [] rest
    else if c == '\\' then wordsFrom (.escaped false) word rest
    else if c == '\'' || c == '"' then wordsFrom (.quoted c) word rest
    else wordsFrom .bare (c :: word) rest
  | .quoted quote, word, c :: rest =>
    if c == quote then wordsFrom .bare word rest
    else if c == '\\' && quote == '"' then wordsFrom (.escaped true) word rest
    else wordsFrom (.quoted quote) (c :: word) rest
  | .escaped false, word, c :: rest => wordsFrom .bare (c :: word) rest
  | .escaped true, word, c :: rest =>
    if c == '\\' || c == '"' then wordsFrom (.quoted '"') (c :: word) rest
    else wordsFrom (.quoted '"') (c :: '\\' :: word) rest

def words (line : String) : Except WordsError (List String) :=
  wordsFrom .between [] line.toList

def isPlain (c : Char) : Bool :=
  c.isAlphanum || "_@%+=:,./-".toList.contains c

/-- The characters of a word inside single quotes; a single quote is put between double quotes. -/
def quoteChars (word : List Char) : List Char :=
  word.flatMap fun c => if c == '\'' then ['\'', '"', '\'', '"', '\''] else [c]

def quote (word : String) : String :=
  if !word.isEmpty && word.toList.all isPlain then word
  else String.ofList ('\'' :: quoteChars word.toList ++ ['\''])

end Deadwood.Shell
