import MakeTree.Proofs.PathJoins

/-! One path as seen from another, for absolute paths that need not be normalized. A prefix of the text
decides what lies below a root, and it decides as the names do, but for one case: the root of two slashes
starts with the root of one, although it does not lie below it. -/
namespace MakeTree.Path
open Text

structure Contained (root path : Text) : Prop where
  outside : relativeTo? path root = none ↔ ¬Within (normalize root) (normalize path)
  inside : ∀ seen, relativeTo? path root = some seen →
    isAbsolute seen = false ∧ ['.', '.'] ∉ components seen ∧ normalJoin root seen = normalize path

structure TwoRoots (root path : Text) : Prop where
  one : normalize root = ['/']
  two : rootSlashes path = 2

variable {root path : Text}

theorem relativeNormal (root path : Text) :
    relativeTo? (normalize path) (normalize root) = relativeTo? path root := by
  unfold relativeTo?
  simp only [normalizeTwice]

theorem settledNames {done : List Text} (settled : Settled false done) (down : ['.', '.'] ∉ done) :
    ∀ name ∈ done, IsName name := by
  induction settled with
  | empty => simp
  | up relative under settled ih => exact absurd (List.mem_cons_self ..) down
  | name named settled ih =>
    exact List.forall_mem_cons.mpr ⟨named, ih fun member => down (List.mem_cons_of_mem _ member)⟩

theorem downNames (normal : normalize path = path) (relative : isAbsolute path = false)
    (down : ['.', '.'] ∉ components path) :
    ∃ these, (∀ name ∈ these, IsName name) ∧ path = render 0 these := by
  have none : rootSlashes path = 0 := slashesNone (relativeHead.mp relative)
  have settled := settleSettled path
  have same := normalizeSettle path
  rw [normal] at same
  rw [none] at settled same
  have parts : ∀ name ∈ (settle path).reverse, IsPart name := fun name member =>
    settledParts settled name (List.mem_reverse.mp member)
  refine ⟨(settle path).reverse, fun name member => ?_, same⟩
  rw [same, renderSome parts (List.ne_nil_of_mem member), components,
    splitJoin (List.ne_nil_of_mem member) fun name member => (parts name member).whole] at down
  exact settledNames settled (fun up => down (List.mem_reverse.mpr up)) name
    (List.mem_reverse.mp member)

theorem insideContained (inside : Within (normalize root) (normalize path))
    (absolute : isAbsolute path = true) (base : isAbsolute root = true) : Contained root path := by
  obtain ⟨slashes, these, rooted, samePath⟩ := normalizeRooted absolute
  obtain ⟨other, names, based, sameRoot⟩ := normalizeRooted base
  obtain ⟨lead, front⟩ := id inside
  rw [samePath, sameRoot, renderSlashes rooted, renderSlashes based] at lead
  rw [samePath, sameRoot, renderNames rooted, renderNames based] at front
  obtain ⟨rest, rfl⟩ := front
  subst lead
  have seen := relativeInside rooted
  rw [← samePath, ← sameRoot, relativeNormal] at seen
  obtain ⟨_, relative, down⟩ := normalizeSeen rooted.behind
  constructor
  · rw [seen]
    exact ⟨fun none => (by cases none), fun outside => absurd inside outside⟩
  · intro found same
    rw [seen] at same
    cases same
    refine ⟨relative, down, ?_⟩
    rw [← joinNormal, sameRoot, samePath, normalJoinRender rooted]

theorem oneSlash (absolute : isAbsolute path = true) (base : normalize root = ['/'])
    (single : rootSlashes path ≠ 2) : Within (normalize root) (normalize path) := by
  have lead := (absoluteSlashes absolute).resolve_right single
  rw [Within, settleSlashes, lead, base]
  exact ⟨rfl, List.nil_prefix⟩

theorem outsideContained (outside : ¬Within (normalize root) (normalize path))
    (apart : ¬TwoRoots root path) (absolute : isAbsolute path = true)
    (base : isAbsolute root = true) : Contained root path := by
  have deep : normalize root ≠ ['/'] := fun single =>
    outside (oneSlash absolute single fun two => apart ⟨single, two⟩)
  obtain ⟨slashes, these, rooted, samePath⟩ := normalizeRooted absolute
  obtain ⟨other, names, based, sameRoot⟩ := normalizeRooted base
  have unseen : relativeTo? path root = none := by
    rw [← relativeNormal, samePath, sameRoot]
    rw [samePath, sameRoot] at outside
    rw [sameRoot] at deep
    exact relativeOutside rooted based deep outside
  constructor
  · exact ⟨fun _ => outside, fun _ => unseen⟩
  · intro seen found
    rw [unseen] at found
    cases found

theorem twoSeen (two : TwoRoots root path) :
    relativeTo? path root = some ((normalize path).drop 1) ∧
      isAbsolute ((normalize path).drop 1) = true ∧ ¬Within (normalize root) (normalize path) := by
  have slashes := settleSlashes path
  rw [two.two] at slashes
  have apart : ¬Within (normalize root) (normalize path) := by
    rintro ⟨same, _⟩
    rw [slashes, two.one] at same
    cases same
  obtain ⟨rest, split⟩ : ∃ rest, normalize path = '/' :: '/' :: rest := by
    unfold rootSlashes at slashes
    split at slashes
    · cases slashes
    · exact ⟨_, ‹_›⟩
    · cases slashes
    · cases slashes
  refine ⟨?_, by rw [split]; rfl, apart⟩
  unfold relativeTo?
  simp [two.one, split, endsWithChar, startsWith]

theorem downSeen {below : Text} (base : isAbsolute root = true) (normal : normalize below = below)
    (relative : isAbsolute below = false) (down : ['.', '.'] ∉ components below) :
    relativeTo? (normalJoin root below) root = some below := by
  obtain ⟨these, all, rfl⟩ := downNames normal relative down
  obtain ⟨slashes, names, based, same⟩ := normalizeRooted base
  have rooted : IsRooted slashes (names ++ these) :=
    ⟨based.lead, fun name member => (List.mem_append.mp member).elim (based.names name) (all name)⟩
  have seen := relativeInside rooted
  rw [← relativeNormal, ← joinNormal, same, normalJoinRender rooted,
    normalizeRender rooted]
  exact seen

theorem relativeContained (root path : Text) (base : isAbsolute root = true)
    (absolute : isAbsolute path = true) :
    (Contained root path ↔ ¬TwoRoots root path) ∧
    (TwoRoots root path → relativeTo? path root = some ((normalize path).drop 1) ∧
      isAbsolute ((normalize path).drop 1) = true) ∧
    ∀ below, normalize below = below → isAbsolute below = false → ['.', '.'] ∉ components below →
      relativeTo? (normalJoin root below) root = some below := by
  refine ⟨⟨fun contained two => ?_, fun apart => ?_⟩, fun two => ?_, fun below => downSeen base⟩
  · obtain ⟨seen, _, outside⟩ := twoSeen two
    rw [contained.outside.mpr outside] at seen
    cases seen
  · by_cases inside : Within (normalize root) (normalize path)
    · exact insideContained inside absolute base
    · exact outsideContained inside apart absolute base
  · obtain ⟨seen, rooted, _⟩ := twoSeen two
    exact ⟨seen, rooted⟩

theorem cratesContained :
    isAbsolute "/a/../r/".toList = true ∧ isAbsolute "/r//b/./c".toList = true ∧
    relativeTo? "/r//b/./c".toList "/a/../r/".toList = some "b/c".toList ∧
    Contained "/a/../r/".toList "/r//b/./c".toList ∧
    relativeTo? (normalJoin "/a/../r/".toList "b/c".toList) "/a/../r/".toList =
      some "b/c".toList := by
  have base : isAbsolute "/a/../r/".toList = true := by decide +kernel
  have absolute : isAbsolute "/r//b/./c".toList = true := by decide +kernel
  have apart : ¬TwoRoots "/a/../r/".toList "/r//b/./c".toList := fun two =>
    absurd two.two (by decide +kernel)
  obtain ⟨contained, _, down⟩ := relativeContained _ _ base absolute
  exact ⟨base, absolute, by decide +kernel, contained.mpr apart,
    down "b/c".toList (by decide +kernel) (by decide +kernel) (by decide +kernel)⟩

theorem doubledRoot :
    (¬∀ root path, isAbsolute root = true → isAbsolute path = true → Contained root path) ∧
    relativeTo? "//x".toList ['/'] = some "/x".toList := by
  have seen : relativeTo? "//x".toList ['/'] = some "/x".toList := by decide +kernel
  refine ⟨fun all => ?_, seen⟩
  have contained := all ['/'] "//x".toList rfl rfl
  exact absurd (contained.inside _ seen).1 (by decide +kernel)

end MakeTree.Path
