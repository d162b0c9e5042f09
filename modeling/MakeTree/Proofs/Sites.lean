import MakeTree.FileTree
import MakeTree.Proofs.Lookups

/-! A tree and the same tree with a file put somewhere. A path leads to the same in both, unless it leads
to the new file or into it as if it were a directory. -/
namespace MakeTree
open Text

namespace FileTree
variable {files : FileTree} {place : Place}

theorem contentElsewhere {other : Place} (elsewhere : other ≠ place) (content : Content) :
    (files.insert place content).contentAt other = files.contentAt other := by
  cases other with
  | nil => rfl
  | cons name rest =>
    simp only [contentAt, insert, List.lookup_cons, beq_false_of_ne elsewhere]
    exact lookupFiltered _ elsewhere

theorem contentInserted (rooted : place ≠ []) (content : Content) :
    (files.insert place content).contentAt place = some content := by
  cases place with
  | nil => contradiction
  | cons name rest => simp [contentAt, insert]

theorem insertTwice (files : FileTree) (place : Place) (first second : Content) :
    (files.insert place first).insert place second = files.insert place second := by
  simp [insert, List.filter_filter]

inductive Seen (files : FileTree) (place : Place) (bytes : List UInt8) :
    Except AccessError (Place × Content) → Except AccessError (Place × Content) → Prop where
  | same {found} : Seen files place bytes found found
  | here {found} (plain : ∀ there, found ≠ .ok (there, .directory)) :
      Seen files place bytes (.ok (place, .file bytes)) found
  | inside (none : files.contentAt place = none) :
      Seen files place bytes (.error .notDirectory) (.error .missing)

structure Site (files : FileTree) (path : Text) (place : Place) : Prop where
  opens : ∀ bytes, (files.insert place (.file bytes)).openFile path = .ok (place, bytes)
  plain : files.contentAt place ≠ some .directory

theorem plainRooted (plain : files.contentAt place ≠ some .directory) : place ≠ [] := by
  rintro rfl
  exact plain rfl

theorem walkSeen (plain : files.contentAt place ≠ some .directory) (bytes : List UInt8)
    (names : List Text) (here : Place) :
    Seen files place bytes ((files.insert place (.file bytes)).walk here names)
      (files.walk here names) := by
  have placed : (files.insert place (.file bytes)).contentAt place = some (.file bytes) :=
    contentInserted (plainRooted plain) _
  induction names generalizing here with
  | nil =>
    by_cases met : here = place
    · subst met
      simp only [walk, placed]
      cases stands : files.contentAt here with
      | none => exact .here fun _ same => by cases same
      | some content =>
        refine .here fun _ same => ?_
        cases same
        exact plain stands
    · simp only [walk, contentElsewhere met]
      exact .same
  | cons name rest ih =>
    by_cases met : here = place
    · subst met
      simp only [walk, placed]
      cases stands : files.contentAt here with
      | none => exact .inside stands
      | some content =>
        cases content with
        | directory => contradiction
        | file old => exact .same
    · simp only [walk, contentElsewhere met]
      cases files.contentAt here with
      | none => exact .same
      | some content =>
        cases content with
        | file old => exact .same
        | directory =>
          simp only
          split
          · exact ih _
          · split
            · exact ih _
            · split
              · exact .same
              · exact ih _

theorem resolveSeen (plain : files.contentAt place ≠ some .directory) (bytes : List UInt8)
    (path : Text) :
    Seen files place bytes ((files.insert place (.file bytes)).resolve path) (files.resolve path) := by
  unfold resolve
  split
  · exact .same
  · split
    · exact .same
    · split
      · exact .same
      · exact walkSeen plain _ _ _

theorem isDirectorySeen (plain : files.contentAt place ≠ some .directory) (bytes : List UInt8)
    (path : Text) :
    (files.insert place (.file bytes)).isDirectory path = files.isDirectory path := by
  have seen := resolveSeen plain bytes path
  unfold isDirectory
  generalize (files.insert place (.file bytes)).resolve path = found at seen
  generalize files.resolve path = other at seen
  cases seen with
  | same | inside _ => rfl
  | here plain =>
    cases other with
    | error _ => rfl
    | ok target =>
      obtain ⟨there, content⟩ := target
      cases content with
      | directory => exact absurd rfl (plain there)
      | file _ => rfl

theorem openSeen (plain : files.contentAt place ≠ some .directory) (bytes : List UInt8)
    (path : Text) :
    (files.insert place (.file bytes)).openFile path = files.openFile path ∨
    (files.insert place (.file bytes)).openFile path = .ok (place, bytes) ∨
    files.contentAt place = none ∧
      (files.insert place (.file bytes)).openFile path = .error .notDirectory ∧
      files.openFile path = .error .missing := by
  have seen := resolveSeen plain bytes path
  unfold openFile
  generalize (files.insert place (.file bytes)).resolve path = found at seen
  generalize files.resolve path = other at seen
  cases seen with
  | same => exact .inl rfl
  | here plain => exact .inr (.inl rfl)
  | inside none => exact .inr (.inr ⟨none, rfl, rfl⟩)

theorem siteAgain {path : Text} (site : files.Site path place) (bytes : List UInt8) :
    (files.insert place (.file bytes)).Site path place where
  opens other := by
    rw [insertTwice]
    exact site.opens other
  plain := by
    rw [contentInserted (plainRooted site.plain)]
    simp

end FileTree
end MakeTree
