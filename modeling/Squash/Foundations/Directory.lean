import Mathlib.Data.List.Basic
import Mathlib.Tactic.Common

/-!
# Directory trees

A file system says what is in a directory and what is a directory; a listing is a finite tree of
such answers. `Listing.At` holds when the file system has the tree at a path, so it has no endless
chains of links there. `select` gives the paths of files, depth first, and `filter_paths` says when
the files may also be selected by their paths.
-/

namespace Directory

variable {α : Type*}

/-- What is in a directory, entry by entry, with what is in the directories among the entries. -/
inductive Listing (α : Type*) where
  | nil
  | file (name : List α) (rest : Listing α)
  | dir (name : List α) (sub rest : Listing α)

structure FileSystem (α : Type*) where
  /-- The names in a directory, if it can be opened -/
  readDir : List α → Option (List (List α))
  /-- Whether the file is a directory, if it exists -/
  isDir : List α → Option Bool

namespace Listing

/-- The names of the entries. -/
def names : Listing α → List (List α)
  | nil => []
  | file name rest => name :: rest.names
  | dir name _ rest => name :: rest.names

/-- All names at any depth. -/
def allNames : Listing α → List (List α)
  | nil => []
  | file name rest => name :: rest.allNames
  | dir name sub rest => name :: (sub.allNames ++ rest.allNames)

/-- The paths of those files whose names are selected. -/
def select (sep : α) (p : List α → Bool) : Listing α → List (List α)
  | nil => []
  | file name rest => if p name then name :: rest.select sep p else rest.select sep p
  | dir name sub rest => (sub.select sep p).map (name ++ sep :: ·) ++ rest.select sep p

/-- The paths of all files. -/
def paths (sep : α) : Listing α → List (List α) := select sep fun _ => true

/-- A bound on how deep the tree is. -/
def depth : Listing α → Nat
  | nil => 0
  | file _ rest => rest.depth
  | dir _ sub rest => sub.depth + 1 + rest.depth

/-- The entries below `path` are as listed. Some names are skipped in each directory. -/
def Entries (fs : FileSystem α) (sep : α) (skip : List α → Bool) : List α → Listing α → Prop
  | _, nil => True
  | path, file name rest =>
    fs.isDir (path ++ sep :: name) = some false ∧ rest.Entries fs sep skip path
  | path, dir name sub rest =>
    fs.isDir (path ++ sep :: name) = some true ∧
      (∃ names, fs.readDir (path ++ sep :: name) = some names ∧
        names.filter (!skip ·) = sub.names) ∧
      sub.Entries fs sep skip (path ++ sep :: name) ∧ rest.Entries fs sep skip path

/-- The file system has this tree at `path`. -/
structure At (fs : FileSystem α) (sep : α) (skip : List α → Bool) (path : List α)
    (l : Listing α) : Prop where
  names : ∃ names, fs.readDir path = some names ∧ names.filter (!skip ·) = l.names
  entries : l.Entries fs sep skip path

variable {fs : FileSystem α} {sep : α} {skip : List α → Bool} {path name : List α}
  {sub rest : Listing α}

theorem Entries.at_dir (h : (dir name sub rest).Entries fs sep skip path) :
    sub.At fs sep skip (path ++ sep :: name) := ⟨h.2.1, h.2.2.1⟩

theorem mem_allNames {l : Listing α} (h : name ∈ l.names) : name ∈ l.allNames := by
  induction l with
  | nil => cases h
  | file n rest ih =>
      rcases List.mem_cons.mp h with rfl | h
      · exact List.mem_cons_self
      · exact List.mem_cons_of_mem _ (ih h)
  | dir n sub rest _ ih =>
      rcases List.mem_cons.mp h with rfl | h
      · exact List.mem_cons_self
      · exact List.mem_cons_of_mem _ (List.mem_append_right _ (ih h))

/-- What is in no name is in no path. -/
theorem not_mem_select {c : α} {p : List α → Bool} (hc : c ≠ sep) {l : Listing α}
    (h : ∀ name ∈ l.allNames, c ∉ name) : ∀ path ∈ l.select sep p, c ∉ path := by
  induction l with
  | nil => exact fun path hpath => absurd hpath List.not_mem_nil
  | file name rest ih =>
      obtain ⟨hname, hrest⟩ := List.forall_mem_cons.mp h
      have ih := ih hrest
      rw [select]
      split
      · exact List.forall_mem_cons.mpr ⟨hname, ih⟩
      · exact ih
  | dir name sub rest ihsub ihrest =>
      obtain ⟨hname, hnames⟩ := List.forall_mem_cons.mp h
      obtain ⟨hsub, hrest⟩ := List.forall_mem_append.mp hnames
      refine List.forall_mem_append.mpr ⟨?_, ihrest hrest⟩
      intro path hpath
      obtain ⟨below, hbelow, rfl⟩ := List.mem_map.mp hpath
      simp [hname, hc, ihsub hsub below hbelow]

/-- **A test that sees the name in a path** selects the paths as it selects the names. -/
theorem filter_paths {p : List α → Bool} (h : ∀ dir name, p (dir ++ sep :: name) = p name)
    (l : Listing α) : (l.paths sep).filter p = l.select sep p := by
  induction l with
  | nil => rfl
  | file name rest ih =>
      show (name :: rest.paths sep).filter p = _
      rw [List.filter_cons, ih]
      rfl
  | dir name sub rest ihsub ihrest =>
      show ((sub.paths sep).map (name ++ sep :: ·) ++ rest.paths sep).filter p = _
      rw [List.filter_append, List.filter_map, ihrest]
      have hsame : p ∘ (name ++ sep :: ·) = p := funext fun path => h name path
      rw [hsame, ihsub]
      rfl

end Listing

end Directory
