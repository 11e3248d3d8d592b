import Mathlib.Data.List.Find
import Deadwood.Proofs.PathLaws
import Deadwood.Proofs.TreeLaws
import Deadwood.Settings.Load
import Deadwood.SourceFile

/-!
# What settings depend on

Settings are read from files that are no source files. A tree in which the directories are the same, and everything that is no
source file, has the same settings.
-/

set_option autoImplicit false
namespace Deadwood

open Files

/-- The later tree is the tree but for source files: it has the same directories and the same other files. -/
structure Files.Tree.SameBesideSources (tree later : Tree) : Prop where
  directories : ∀ place, later.entry? place = some .directory ↔ tree.entry? place = some .directory
  others : ∀ place, FileKind.ofPath? (place.getLastD "") = none → later.entry? place = tree.entry? place

namespace Files.Tree.SameBesideSources

variable {tree middle later : Tree} {path base : Path} {location : Location}

theorem symm (same : SameBesideSources tree later) : SameBesideSources later tree where
  directories place := (same.directories place).symm
  others place isOther := (same.others place isOther).symm

theorem locate (same : SameBesideSources tree later) (found : tree.locate path = .ok location) :
    later.locate path = .ok location :=
  locate_of_directories (fun place directory _ => (same.directories place).mpr directory) found found

theorem isDirectoryAt_eq (same : SameBesideSources tree later) (path : Path) :
    later.isDirectoryAt path = tree.isDirectoryAt path := by
  rw [Bool.eq_iff_iff]
  have whenever {first second : Tree} (same : SameBesideSources first second) (found : first.isDirectoryAt path = true) :
      second.isDirectoryAt path = true := by
    unfold isDirectoryAt at found ⊢
    split at found
    · rename_i location located
      rw [same.locate located]
      exact isDirectory_iff.mpr ((same.directories location).mpr (isDirectory_iff.mp found))
    · cases found
  exact ⟨whenever same.symm, whenever same⟩

/-! ## Files that are no source files -/

variable {name : String}

theorem locate_cases (same : SameBesideSources tree later) (isOther : FileKind.ofPath? name = none)
    (noParent : name ≠ "..") (base : Path) :
    (∃ location, tree.locate (base.join ⟨"", [name]⟩) = .ok location ∧
        later.locate (base.join ⟨"", [name]⟩) = .ok location ∧ later.entry? location = tree.entry? location) ∨
      (∃ fault, tree.locate (base.join ⟨"", [name]⟩) = .error fault) ∧
        ∃ fault, later.locate (base.join ⟨"", [name]⟩) = .error fault := by
  have noParents : ".." ∉ [name] := by simpa using noParent.symm
  cases located : tree.locate (base.join ⟨"", [name]⟩) with
  | ok location =>
      refine Or.inl ⟨location, rfl, same.locate located, same.others location ?_⟩
      rw [tree.locate_join base noParents] at located
      cases followed : tree.locate base with
      | error fault =>
          rw [followed] at located
          cases located
      | ok place =>
          rw [followed] at located
          obtain rfl := Except.ok.inj located
          simpa using isOther
  | error fault =>
      refine Or.inr ⟨⟨fault, rfl⟩, ?_⟩
      cases locatedLater : later.locate (base.join ⟨"", [name]⟩) with
      | error fault => exact ⟨fault, rfl⟩
      | ok location => cases (same.symm.locate locatedLater).symm.trans located

theorem isFileAt_eq (same : SameBesideSources tree later) (isOther : FileKind.ofPath? name = none)
    (noParent : name ≠ "..") (base : Path) :
    later.isFileAt (base.join ⟨"", [name]⟩) = tree.isFileAt (base.join ⟨"", [name]⟩) := by
  unfold isFileAt
  rcases same.locate_cases isOther noParent base with ⟨location, located, located', held⟩ | ⟨⟨_, lost⟩, _, lost'⟩
  · rw [located, located']
    dsimp only
    rw [isFile, isFile, held]
  · rw [lost, lost']

/-- A file of a name that no source file has is read alike. -/
theorem read_cases (same : SameBesideSources tree later) (isOther : FileKind.ofPath? name = none)
    (noParent : name ≠ "..") (base : Path) :
    (∃ content, (tree.locate (base.join ⟨"", [name]⟩)).bind tree.read = .ok content ∧
        (later.locate (base.join ⟨"", [name]⟩)).bind later.read = .ok content) ∨
      (∃ fault, (tree.locate (base.join ⟨"", [name]⟩)).bind tree.read = .error fault) ∧
        ∃ fault, (later.locate (base.join ⟨"", [name]⟩)).bind later.read = .error fault := by
  rcases same.locate_cases isOther noParent base with ⟨location, located, located', held⟩ | ⟨⟨_, lost⟩, _, lost'⟩
  · rw [located, located', Except.bind, Except.bind, Tree.read, Tree.read, held]
    rcases tree.entry? location with _ | ⟨content | _⟩
    · exact Or.inr ⟨⟨_, rfl⟩, _, rfl⟩
    · exact Or.inl ⟨_, rfl, rfl⟩
    · exact Or.inr ⟨⟨_, rfl⟩, _, rfl⟩
  · rw [lost, lost']
    exact Or.inr ⟨⟨_, rfl⟩, _, rfl⟩

end Files.Tree.SameBesideSources

namespace Settings

variable {tree later : Tree} {base : Path} {name : String}
  {reader : List Char → Except TomlError (List (String × TomlValue))}

theorem applyFile_congr (same : tree.SameBesideSources later) (isOther : FileKind.ofPath? name = none)
    (noParent : name ≠ "..") (settings : Settings) :
    applyFile later settings (base.join ⟨"", [name]⟩) reader = applyFile tree settings (base.join ⟨"", [name]⟩) reader := by
  unfold applyFile
  rcases same.read_cases isOther noParent base with ⟨content, found, found'⟩ | ⟨⟨fault, lost⟩, fault', lost'⟩
  · rw [found, found']
  · rw [lost, lost']

theorem ofPath?_projectFileName : FileKind.ofPath? projectFileName = none := by
  decide +kernel

theorem projectFile?_congr (same : tree.SameBesideSources later) (root : Path) :
    projectFile? later root = projectFile? tree root := by
  refine List.find?_congr fun path listed => ?_
  rcases List.mem_cons.mp listed with rfl | listed
  · exact same.isFileAt_eq ofPath?_projectFileName (by decide) root
  · rw [List.mem_singleton.mp listed]
    exact same.isFileAt_eq ofPath?_projectFileName (by decide) root.parent

/-- The settings of a root are the same in a tree that is the same but for source files. -/
theorem load_congr (same : tree.SameBesideSources later) (places : Places) (root : Path) :
    load places later (some root) none reader = load places tree (some root) none reader := by
  have noSource : FileKind.ofPath? "config.toml" = none := by decide +kernel
  have globalFile : later.isFileAt places.globalFile = tree.isFileAt places.globalFile :=
    same.isFileAt_eq noSource (by decide) places.base
  have global : ∀ settings, applyFile later settings places.globalFile reader = applyFile tree settings places.globalFile reader :=
    applyFile_congr same noSource (by decide)
  have project : ∀ path, projectFile? tree root = some path → later.isFileAt path = tree.isFileAt path ∧
      ∀ settings, applyFile later settings path reader = applyFile tree settings path reader := by
    intro path found
    have listed := List.mem_of_find?_eq_some found
    rcases List.mem_cons.mp listed with rfl | listed
    · exact ⟨same.isFileAt_eq ofPath?_projectFileName (by decide) root,
        applyFile_congr same ofPath?_projectFileName (by decide)⟩
    · rw [List.mem_singleton.mp listed]
      exact ⟨same.isFileAt_eq ofPath?_projectFileName (by decide) root.parent,
        applyFile_congr same ofPath?_projectFileName (by decide)⟩
  unfold load
  rw [globalFile, global]
  simp only [Option.bind_some, projectFile?_congr same root, Option.orElse_eq_orElse, Option.orElse_eq_or, Option.none_or]
  cases found : projectFile? tree root with
  | none => rfl
  | some path =>
      obtain ⟨isFile, applied⟩ := project path found
      simp only [isFile, applied]

end Settings
end Deadwood
