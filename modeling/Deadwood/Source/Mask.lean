import Deadwood.Text.CharClass

/-!
# The masked view of a script

Comments and the contents of string, template and pattern literals are replaced by spaces while line ends
are kept, so offsets and line numbers in a view are those of the text. A view hides comments, literal
contents, or both.

The scan is one pass over the characters. It carries what it is inside of, the unclosed braces of every
interpolation it stands in, and the characters already written, nearest first: whether a slash begins a
pattern literal is decided by what was written before it.
-/

set_option autoImplicit false
namespace Deadwood.Source

open Deadwood.Text

structure View where
  hidesLiterals : Bool
  hidesComments : Bool
  deriving Repr, DecidableEq

def View.code : View := ⟨true, true⟩

def View.literal : View := ⟨false, true⟩

inductive Region where
  | code
  | lineComment
  | blockComment
  | quoted (quote : Char)
  | template
  | pattern (inClass : Bool)
  deriving Repr, DecidableEq

def blank (c : Char) : Char :=
  if c == '\n' || c == '\r' then c else ' '

def shown (hidden : Bool) (c : Char) : Char :=
  if hidden then blank c else c

def precedesPattern (c : Char) : Bool :=
  "(,=:[!&|?\x7b\x7d;+-*%<>~^".toList.contains c

def patternKeywords : List String :=
  ["return", "typeof", "case", "do", "else", "in", "of", "void", "throw", "delete", "new", "instanceof",
   "yield", "await"]

def isNameChar (c : Char) : Bool :=
  isAlphanumeric c || c == '_' || c == '$'

/-- Whether a slash may begin a pattern literal after what was written, nearest character first: at the
beginning, after an operator or an opening bracket, or after a keyword that an expression follows. -/
def patternAllowed (written : List Char) : Bool :=
  match written.dropWhile isBlank with
  | [] => true
  | c :: rest =>
    precedesPattern c
      || (isNameChar c && patternKeywords.contains (String.ofList ((c :: rest).takeWhile isNameChar).reverse))

/-- Whether a pattern literal is closed by a slash before the line ends. A backslash takes the next
character with it, even a line feed. -/
def patternCloses (inClass : Bool) : List Char → Bool
  | [] => false
  | '\\' :: [] => false
  | '\\' :: _ :: rest => patternCloses inClass rest
  | c :: rest =>
    if c == '\n' then false
    else if inClass then patternCloses (c != ']') rest
    else if c == '/' then true
    else patternCloses (c == '[') rest

/-- The view of a text from a point inside `region` on. `holes` counts, innermost first, the braces open in
each interpolation around that point; `written` is what the view shows before it, nearest first. -/
def maskFrom (view : View) : Region → List Nat → List Char → List Char → List Char
  | _, _, _, [] => []
  | .lineComment, holes, written, c :: rest =>
    if c == '\n' then c :: maskFrom view .code holes (c :: written) rest
    else
      let out := shown view.hidesComments c
      out :: maskFrom view .lineComment holes (out :: written) rest
  | .blockComment, holes, written, '*' :: '/' :: rest =>
    let first := shown view.hidesComments '*'
    let second := shown view.hidesComments '/'
    first :: second :: maskFrom view .code holes (second :: first :: written) rest
  | .blockComment, holes, written, c :: rest =>
    let out := shown view.hidesComments c
    out :: maskFrom view .blockComment holes (out :: written) rest
  | .quoted quote, holes, written, '\\' :: escaped :: rest =>
    let first := shown view.hidesLiterals '\\'
    let second := shown view.hidesLiterals escaped
    first :: second :: maskFrom view (.quoted quote) holes (second :: first :: written) rest
  | .quoted quote, holes, written, c :: rest =>
    if c == quote || c == '\n' then c :: maskFrom view .code holes (c :: written) rest
    else
      let out := shown view.hidesLiterals c
      out :: maskFrom view (.quoted quote) holes (out :: written) rest
  | .template, holes, written, '\\' :: escaped :: rest =>
    let first := shown view.hidesLiterals '\\'
    let second := shown view.hidesLiterals escaped
    first :: second :: maskFrom view .template holes (second :: first :: written) rest
  | .template, holes, written, '$' :: '{' :: rest =>
    let first := shown view.hidesLiterals '$'
    let second := shown view.hidesLiterals '{'
    first :: second :: maskFrom view .code (0 :: holes) (second :: first :: written) rest
  | .template, holes, written, c :: rest =>
    if c == '`' then c :: maskFrom view .code holes (c :: written) rest
    else
      let out := shown view.hidesLiterals c
      out :: maskFrom view .template holes (out :: written) rest
  | .pattern inClass, holes, written, '\\' :: escaped :: rest =>
    let first := shown view.hidesLiterals '\\'
    let second := shown view.hidesLiterals escaped
    first :: second :: maskFrom view (.pattern inClass) holes (second :: first :: written) rest
  | .pattern inClass, holes, written, c :: rest =>
    if !inClass && c == '/' then c :: maskFrom view .code holes (c :: written) rest
    else
      let out := shown view.hidesLiterals c
      let stillInClass := if inClass then c != ']' else c == '['
      out :: maskFrom view (.pattern stillInClass) holes (out :: written) rest
  | .code, holes, written, '/' :: '/' :: rest =>
    let out := shown view.hidesComments '/'
    out :: out :: maskFrom view .lineComment holes (out :: out :: written) rest
  | .code, holes, written, '/' :: '*' :: rest =>
    let first := shown view.hidesComments '/'
    let second := shown view.hidesComments '*'
    first :: second :: maskFrom view .blockComment holes (second :: first :: written) rest
  | .code, holes, written, c :: rest =>
    if c == '\'' || c == '"' then c :: maskFrom view (.quoted c) holes (c :: written) rest
    else if c == '`' then c :: maskFrom view .template holes (c :: written) rest
    else if c == '/' && patternAllowed written && patternCloses false rest then
      c :: maskFrom view (.pattern false) holes (c :: written) rest
    else match holes with
      | [] => c :: maskFrom view .code [] (c :: written) rest
      | depth :: outer =>
        if c == '{' then c :: maskFrom view .code ((depth + 1) :: outer) (c :: written) rest
        else if c == '}' then
          match depth with
          | 0 =>
            let out := shown view.hidesLiterals c
            out :: maskFrom view .template outer (out :: written) rest
          | depth + 1 => c :: maskFrom view .code (depth :: outer) (c :: written) rest
        else c :: maskFrom view .code (depth :: outer) (c :: written) rest

def mask (view : View) (text : List Char) : List Char :=
  maskFrom view .code [] [] text

end Deadwood.Source
