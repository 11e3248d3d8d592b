import Deadwood.CommandLine.Arguments
import Deadwood.Text.Styled
import Deadwood.Toml.Document

/-!
# Toolkits

How arguments are read, how text with tags is shown and how a settings file is read is not for the project to say: a toolkit
stands for what does it. A toolkit that knows no styles reads arguments in the usual way and takes tags out.
-/

set_option autoImplicit false
namespace Deadwood.CommandLine

open Text

/-- What reads the arguments of a command, given the options that it knows and whether words end the options, what shows text
with tags, or says why it cannot be shown, and what reads the tables of a settings file. -/
structure Toolkit where
  given? : List OptionSpec → Bool → List String → Option Given
  shown : String → Except String String
  tables : List Char → Except TomlError (List (String × TomlValue)) := Toml.readDocument

def Toolkit.plain : Toolkit where
  given? := Given.ofArguments?
  shown text := (Styled.shown text).mapError Styled.TagError.message

end Deadwood.CommandLine
