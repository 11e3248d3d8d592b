import Deadwood.Report.Basic

/-!
# The table report

One row for each unused file and symbol, fields separated by commas. A field that holds a comma, a quote, a
line feed or a carriage return is quoted, and a quote inside is written twice.
-/

set_option autoImplicit false
namespace Deadwood.Report

def needsQuotes (c : Char) : Bool :=
  c == ',' || c == '"' || c == '\n' || c == '\r'

def doubleQuotes (text : List Char) : List Char :=
  text.flatMap fun c => if c == '"' then ['"', '"'] else [c]

def csvField (text : String) : String :=
  if text.toList.any needsQuotes then String.ofList ('"' :: doubleQuotes text.toList ++ ['"']) else text

def csvRow (fields : List String) : String :=
  ",".intercalate (fields.map csvField) ++ "\n"

def csvFileRow (rated : RatedFile) : List String :=
  ["File", rated.file.path, rated.file.path, toString rated.file.size, rated.rating.level.label,
   recommendFile rated.rating]

def csvSymbolRow (rated : RatedSymbol) : List String :=
  ["Function", rated.symbol.name, ";".intercalate rated.symbol.definedIn, "", rated.rating.level.label,
   recommendSymbol rated.rating]

def csvRows (report : Report) : List (List String) :=
  ["Type", "Name", "Path", "Size", "Risk", "Recommendation"]
    :: report.assessment.files.map csvFileRow ++ report.assessment.symbols.map csvSymbolRow

def csv (report : Report) : String :=
  String.join (report.csvRows.map csvRow)

end Deadwood.Report
