import Deadwood.CommandLine.Entry
import Deadwood.Proofs.LinkedSessions
import Deadwood.Proofs.LoneDeletions

/-!
# The commands that delete an item

A command that is told an item and a snapshot, and not to ask, deletes the item in a session of its own. It ends well if the
item is deleted and what is said of it can be shown, whether or not the log can be extended; if nothing is deleted it does not
end well.
-/

set_option autoImplicit false
namespace Deadwood

open Files CommandLine.Run

/-- The arguments of the command that deletes an item of a root under a snapshot. -/
def DeletionItem.arguments (root id : String) : DeletionItem → List String
  | .function path name => ["remove-symbol", root, path, name, "--snapshot", id, "--yes"]
  | .file path => ["remove-file", root, path, "--snapshot", id, "--yes"]

/-- The words among them that are no options. -/
def DeletionItem.words (root : String) : DeletionItem → List String
  | .function path name => [root, path, name]
  | .file path => [root, path]

def DeletionItem.name? : DeletionItem → Option String
  | .function _ name => some name
  | .file _ => none

namespace CommandLine

namespace Run
variable {α β : Type} {act : Run α} {next : α → Run β} {console later : Console} {value : α} {ending : Ending}

theorem bind_of_ok (done : act console = (.ok value, later)) : (act >>= next) console = next value later := by
  simp only [bind, ExceptT.bind, ExceptT.mk, StateT.bind, done]
  rfl

theorem bind_of_error (done : act console = (.error ending, later)) : (act >>= next) console = (.error ending, later) := by
  simp only [bind, ExceptT.bind, ExceptT.mk, StateT.bind, done]
  rfl

theorem world_apply (console : Console) : world console = (.ok console.world, console) := rfl
theorem toolkit_apply (console : Console) : toolkit console = (.ok console.toolkit, console) := rfl
theorem inWorld_apply (act : World → α × World) (console : Console) :
    inWorld act console = (.ok (act console.world).1, { console with world := (act console.world).2 }) := rfl

theorem settings_of_load {root file : Option Path} {settings : Settings}
    (loaded : Settings.load console.places console.world.tree root file console.toolkit.tables = .ok settings) :
    Run.settings root file console = (.ok settings, console) := by
  rw [Run.settings]
  rw [bind_of_ok (rfl : places console = (.ok console.places, console))]
  rw [bind_of_ok (world_apply console), bind_of_ok (toolkit_apply console), loaded]
  rfl

theorem sayStyled_of_shown {text line : String} (shown : console.toolkit.shown text = .ok line) :
    sayStyled text console = (.ok (), { console with shown := console.shown ++ (line ++ "\n") }) := by
  rw [sayStyled]
  have plainly : plain text console = (.ok line, console) := by
    rw [plain, bind_of_ok (toolkit_apply console), shown]
    rfl
  rw [bind_of_ok plainly]
  rfl

/-- Whether or not its words can be shown, a refusal ends the command and changes nothing. -/
theorem exists_refuse (text : String) (console : Console) :
    ∃ ending console', (refuse text : Run α) console = (.error ending, console') ∧ console'.world = console.world := by
  rw [refuse]
  cases shown : console.toolkit.shown ("[red]✗[/red] " ++ text) with
  | ok line =>
      rw [bind_of_ok (sayStyled_of_shown shown)]
      exact ⟨_, _, rfl, rfl⟩
  | error reason =>
      have unshown : plain ("[red]✗[/red] " ++ text) console = (.error (.failed (.tags reason)), console) := by
        rw [plain, bind_of_ok (toolkit_apply console), shown]
        rfl
      have failed : sayStyled ("[red]✗[/red] " ++ text) console = (.error (.failed (.tags reason)), console) := by
        rw [sayStyled, bind_of_error unshown]
      rw [bind_of_error failed]
      exact ⟨_, _, rfl, rfl⟩

end Run

def IsWord (argument : String) : Prop :=
  argument.toList.head? ≠ some '-'

def itemSpecs : List OptionSpec :=
  [helpOption, snapshotOption, storeOption, yesOption, configOption]

def givenTo (id : String) (words : List String) : Given :=
  { options := [("--snapshot", some id), ("--yes", none)], words := words }

/-- A toolkit leaves the arguments of a command to the command, reads those of a command that deletes an item under a snapshot as
they are meant, and can show the warning that the log has not been extended. -/
structure Toolkit.Handles (toolkit : Toolkit) : Prop where
  command : ∀ name ∈ commandNames, ∀ arguments,
    toolkit.given? globalOptions true (name :: arguments) = some { words := name :: arguments }
  item : ∀ (item : DeletionItem) root id, (∀ word ∈ item.words root, IsWord word) →
    toolkit.given? itemSpecs false (item.words root ++ ["--snapshot", id, "--yes"]) = some (givenTo id (item.words root))
  warning : ∃ line, toolkit.shown ("[yellow]![/yellow] " ++ "Could not append to deletion log") = .ok line

theorem run_words {console : Console} (handles : console.toolkit.Handles) {name : String} (known : name ∈ commandNames)
    (arguments : List String) : run (name :: arguments) console = performWords (name :: arguments) console := by
  have contains : commandNames.contains name = true := List.contains_iff_mem.mpr known
  rw [run, bind_of_ok (toolkit_apply console), handles.command name known]
  simp only [List.find?_nil, List.head?_cons, Option.any_some, contains, Bool.not_true, Bool.false_eq_true, if_false]
  rfl

theorem settingsFile_givenTo (id : String) (words : List String) : (givenTo id words).settingsFile = none := by
  simp [Given.settingsFile, Given.path?, Given.value?, givenTo, List.lookup]

theorem itemRequest_givenTo (item : DeletionItem) (id : String) (words : List String) :
    itemRequest item (givenTo id words) = { item := item, snapshotId := some id, store := none, confirmed := true } := by
  simp [itemRequest, Given.store, Given.path?, Given.value?, Given.has, givenTo, List.lookup]

theorem ofWords?_arguments {toolkit : Toolkit} (handles : toolkit.Handles) {tree : Tree} {root : Path} {item : DeletionItem}
    {text : String} (id : String) (rootWord : IsWord text) (read : Path.ofString text = root)
    (isDirectory : tree.isDirectoryAt root = true) (pathWord : IsWord item.path) (nameWord : ∀ name ∈ item.name?, IsWord name) :
    Request.ofWords? toolkit tree (item.arguments text id) =
      some (.perform (.deleteItem ⟨root, none⟩ { item := item, snapshotId := some id, store := none, confirmed := true })) := by
  have source : ∀ words, source? tree text (givenTo id words) = some ⟨root, none⟩ := by
    intro words
    rw [source?, root?, read, settingsFile_givenTo]
    simp only [isDirectory, if_true, Option.map_some]
  have noHelp : ∀ words, (givenTo id words).has "--help" = false := fun words => by
    simp [Given.has, givenTo]
  cases item with
  | function path name =>
      have areWords : ∀ word ∈ [text, path, name], IsWord word :=
        List.forall_mem_cons.mpr ⟨rootWord, List.forall_mem_cons.mpr ⟨pathWord, by simpa using nameWord name rfl⟩⟩
      have given := handles.item (.function path name) text id areWords
      have words : (givenTo id [text, path, name]).words = [text, path, name] := rfl
      simp only [itemSpecs, DeletionItem.words, List.cons_append, List.nil_append] at given
      rw [DeletionItem.arguments, Request.ofWords?, if_neg (by decide), requestOf?]
      simp only [treeForms, List.find?_cons, String.reduceEq, decide_false, decide_true, Option.bind_eq_bind, Option.bind_some,
        given, noHelp, Bool.false_eq_true, if_false, words, source, itemRequest_givenTo, Option.map_some]
      rfl
  | file path =>
      have areWords : ∀ word ∈ [text, path], IsWord word :=
        List.forall_mem_cons.mpr ⟨rootWord, by simpa using (show IsWord path from pathWord)⟩
      have given := handles.item (.file path) text id areWords
      have words : (givenTo id [text, path]).words = [text, path] := rfl
      simp only [itemSpecs, DeletionItem.words, List.cons_append, List.nil_append] at given
      rw [DeletionItem.arguments, Request.ofWords?, if_neg (by decide), requestOf?]
      simp only [treeForms, List.find?_cons, String.reduceEq, decide_false, decide_true, Option.bind_eq_bind, Option.bind_some,
        given, noHelp, Bool.false_eq_true, if_false, words, source, itemRequest_givenTo, Option.map_some]
      rfl

/-! ## One item -/

theorem exitStatus_error (ending : Ending) : exitStatus (.error ending) ≠ 0 := by
  cases ending <;> simp [exitStatus]

section Items

variable {console : Console} {settings : Settings} {root : Path} {item : DeletionItem} {id : String}
  {deletion : ItemDeletion} {later : World}

def storeOf (places : Places) (settings : Settings) : SnapshotStore :=
  ⟨places.expand (settings.backupDirectory places)⟩

def requestFor (item : DeletionItem) (id : String) : ItemRequest :=
  { item := item, snapshotId := some id, store := none, confirmed := true }

def sayDeletion (item : DeletionItem) (deletion : ItemDeletion) : Run Unit :=
  match deletion.record with
  | none =>
    refuse (itemTarget item ++ ": " ++
      (deletion.failures.getLast?.map fun failure => failure.fault.message).getD "unknown error")
  | some record => do
    deletion.logError.toList.forM sayLogError
    sayStyled ("[green]✓[/green] " ++ deletedLine record item)
    say ("Snapshot: " ++ deletion.snapshot.id)

/-- What is said of an item that is deleted can be shown, and nothing else comes of it. -/
theorem sayDeletion_of_recorded (handles : console.toolkit.Handles) {record : DeletionRecord}
    (recorded : deletion.record = some record) (logged : ∀ error ∈ deletion.logError, error = .logNotAppended)
    (shown : ∃ line, console.toolkit.shown ("[green]✓[/green] " ++ deletedLine record item) = .ok line) :
    ∃ console', sayDeletion item deletion console = (.ok (), console') ∧ console'.world = console.world := by
  obtain ⟨line, shown⟩ := shown
  obtain ⟨warning, warned⟩ := handles.warning
  rw [sayDeletion, recorded]
  dsimp only
  cases unlogged : deletion.logError with
  | none =>
      have silent : (none : Option SnapshotError).toList.forM sayLogError = pure () := rfl
      rw [silent, pure_bind, bind_of_ok (sayStyled_of_shown shown)]
      exact ⟨_, rfl, rfl⟩
  | some error =>
      obtain rfl := logged error unlogged
      have said : (some SnapshotError.logNotAppended).toList.forM sayLogError console =
          (.ok (), { console with shown := console.shown ++ (warning ++ "\n") }) := by
        change (sayLogError .logNotAppended >>= fun _ => pure ()) console = _
        have warns : sayLogError .logNotAppended console = (.ok (), _) := sayStyled_of_shown warned
        rw [bind_of_ok warns]
        rfl
      have after : sayStyled ("[green]✓[/green] " ++ deletedLine record item)
          { console with shown := console.shown ++ (warning ++ "\n") } = (.ok (), _) := sayStyled_of_shown shown
      rw [bind_of_ok said, bind_of_ok after]
      exact ⟨_, rfl, rfl⟩

section Deleted

variable (loaded : Settings.load console.places console.world.tree (some root) none console.toolkit.tables = .ok settings)
  (done : (storeOf console.places settings).deleteItem (some id) root item console.links console.world = (.ok deletion, later))

include loaded done

theorem deleteOne_apply : deleteOne ⟨root, none⟩ (requestFor item id) console =
    sayDeletion item deletion { console with world := later, links := deletion.links } := by
  have effective : Source.settings ⟨root, none⟩ console = (.ok settings, console) := settings_of_load loaded
  have worked : inWorld ((storeOf console.places settings).deleteItem (some id) root item console.links) console =
      (.ok (.ok deletion), { console with world := later }) := by
    rw [inWorld_apply, done]
  have kept : store none settings console = (.ok (storeOf console.places settings), console) := rfl
  rw [deleteOne, bind_of_ok effective, requestFor]
  dsimp only
  rw [if_pos rfl, pure_bind]
  simp only [Bool.not_true, Bool.false_eq_true, if_false]
  have whole : (get : Run Console) console = (.ok console, console) := rfl
  rw [bind_of_ok kept, bind_of_ok whole, bind_of_ok worked]
  rfl

/-- A command that has deleted nothing does not end well. -/
theorem deleteOne_of_unrecorded (unrecorded : deletion.record = none) :
    ∃ ending console', deleteOne ⟨root, none⟩ (requestFor item id) console = (.error ending, console') ∧
      console'.world = later := by
  rw [deleteOne_apply loaded done, sayDeletion, unrecorded]
  exact exists_refuse _ _

/-- A command that has deleted an item ends well. -/
theorem deleteOne_of_recorded (handles : console.toolkit.Handles) {record : DeletionRecord}
    (recorded : deletion.record = some record) (logged : ∀ error ∈ deletion.logError, error = .logNotAppended)
    (shown : ∃ line, console.toolkit.shown ("[green]✓[/green] " ++ deletedLine record item) = .ok line) :
    ∃ console', deleteOne ⟨root, none⟩ (requestFor item id) console = (.ok (), console') ∧ console'.world = later := by
  rw [deleteOne_apply loaded done]
  exact sayDeletion_of_recorded handles recorded logged shown

end Deleted

end Items

/-! ## From the arguments -/

theorem performWords_arguments {console : Console} (handles : console.toolkit.Handles) {root : Path} {item : DeletionItem}
    {text id : String} (rootWord : IsWord text) (read : Path.ofString text = root)
    (isDirectory : console.world.tree.isDirectoryAt root = true) (pathWord : IsWord item.path)
    (nameWord : ∀ name ∈ item.name?, IsWord name) :
    performWords (item.arguments text id) console = deleteOne ⟨root, none⟩ (requestFor item id) console := by
  rw [performWords, bind_of_ok (toolkit_apply console), bind_of_ok (world_apply console),
    ofWords?_arguments handles id rootWord read isDirectory pathWord nameWord]
  rfl

/-- The arguments of an item command make it delete the item. -/
theorem run_arguments {console : Console} (handles : console.toolkit.Handles) {root : Path} {item : DeletionItem}
    {text id : String} (rootWord : IsWord text) (read : Path.ofString text = root)
    (isDirectory : console.world.tree.isDirectoryAt root = true) (pathWord : IsWord item.path)
    (nameWord : ∀ name ∈ item.name?, IsWord name) :
    run (item.arguments text id) console = deleteOne ⟨root, none⟩ (requestFor item id) console := by
  rw [← performWords_arguments handles rootWord read isDirectory pathWord nameWord]
  cases item with
  | function path name => rw [DeletionItem.arguments, run_words handles (by decide)]
  | file path => rw [DeletionItem.arguments, run_words handles (by decide)]

end CommandLine
end Deadwood
