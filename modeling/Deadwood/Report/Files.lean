import Deadwood.Moment
import Deadwood.Report.Csv
import Deadwood.Report.Detail
import Deadwood.Report.Dot
import Deadwood.Report.Script
import Deadwood.Report.Summary
import Deadwood.Report.Tree
import Deadwood.World

/-!
# Report files

Every form of a report is written to a file of its own in one directory. The names of the files hold the time.
-/

set_option autoImplicit false
namespace Deadwood
namespace Report

open Files

def fileStem (report : Report) : String :=
  "cleanup-report-" ++ String.ofList (report.generatedAt.toList.map fun c => if c == ':' then '-' else c)

/-- Why a report is not written: a file cannot be, or the tree lacks a node. -/
inductive WriteError where
  | file (error : FileError)
  | missingNode
  deriving Repr

def forms? (report : Report) : Option (List (String × String × String)) :=
  let stem := report.fileStem
  report.tree?.map fun tree =>
    [("detailed", stem ++ "-detailed.json", report.detailText),
     ("summary", stem ++ "-summary.md", report.summary),
     ("tree", stem ++ "-tree.txt", tree),
     ("csv", stem ++ ".csv", report.csv),
     ("graph", stem ++ "-graph.dot", report.dot),
     ("actions", stem ++ "-actions.sh", report.script)]

/-- Writes texts to files of a directory one after another, up to the first that cannot be written. -/
def writeFiles (directory : Path) (tree : Tree) :
    List (String × String × String) → Except FileError (List (String × Path)) × Tree
  | [] => (.ok [], tree)
  | (form, name, text) :: rest =>
    let path := directory.join ⟨"", [name]⟩
    match (tree.locate path).bind fun location => tree.write location (Text.encode text.toList) with
    | .error fault => (.error ⟨fault, path.toString⟩, tree)
    | .ok tree =>
      let (written, tree) := writeFiles directory tree rest
      (written.map ((form, path) :: ·), tree)

/-- Writes all forms of a report to a directory, which is made if it is not there; gives the paths by form. -/
def writeAll (report : Report) (directory : Path) (tree : Tree) :
    Except WriteError (List (String × Path)) × Tree :=
  match (tree.locate directory).bind tree.makeDirectories with
  | .error fault => (.error (.file ⟨fault, directory.toString⟩), tree)
  | .ok tree =>
    match report.forms? with
    | none => (.error .missingNode, tree)
    | some forms =>
      let (written, tree) := writeFiles directory tree forms
      (written.mapError .file, tree)

end Report
end Deadwood
