import MakeTree.Proofs.PathNames

/-! Paths that are joined one behind another. Normalizing puts the names of a path on a stack, on which
nothing is left to cancel, so the names of the normalized path give the same stack again. A path may
therefore be normalized before another one is joined to it, or afterwards. -/
namespace MakeTree.Path
open Text

inductive Settled (absolute : Bool) : List Text → Prop where
  | empty : Settled absolute []
  | up {done} (relative : absolute = false) (under : ∀ last ∈ done.head?, last = ['.', '.'])
      (settled : Settled absolute done) : Settled absolute (['.', '.'] :: done)
  | name {name done} (named : IsName name) (settled : Settled absolute done) :
      Settled absolute (name :: done)

variable {absolute : Bool} {done : List Text} {path suffix : Text}

theorem descendSettled {comp : Text} (settled : Settled absolute done) (whole : '/' ∉ comp) :
    Settled absolute (descend absolute done comp) := by
  unfold descend
  split
  · exact settled
  · rename_i plain
    split
    · rename_i up
      subst up
      cases settled with
      | empty =>
        cases absolute with
        | true => exact .empty
        | false => exact .up rfl (by simp) .empty
      | up relative under settled => exact .up relative (by simp) (.up relative under settled)
      | name named settled =>
        simp only [if_neg named.noUp]
        exact settled
    · rename_i noUp
      exact .name ⟨fun none => plain (.inl none), whole, fun here => plain (.inr here), noUp⟩ settled

theorem namesSettled {these : List Text} (settled : Settled absolute done)
    (whole : ∀ name ∈ these, '/' ∉ name) : Settled absolute (these.foldl (descend absolute) done) := by
  induction these generalizing done with
  | nil => exact settled
  | cons name rest ih =>
    obtain ⟨first, others⟩ := List.forall_mem_cons.mp whole
    exact ih (descendSettled settled first) others

theorem settledParts (settled : Settled absolute done) : ∀ name ∈ done, IsPart name := by
  induction settled with
  | empty => simp
  | up relative under settled ih => exact List.forall_mem_cons.mpr ⟨⟨by simp, by simp⟩, ih⟩
  | name named settled ih => exact List.forall_mem_cons.mpr ⟨⟨named.solid, named.whole⟩, ih⟩

theorem settledAgain (settled : Settled absolute done) :
    done.reverse.foldl (descend absolute) [] = done := by
  induction settled with
  | empty => rfl
  | @up done relative under settled ih =>
    rw [List.reverse_cons, List.foldl_append, ih]
    cases done with
    | nil => simp [descend, relative]
    | cons last rest => simp [descend, under last rfl]
  | name named settled ih =>
    rw [List.reverse_cons, List.foldl_append, ih]
    simp [descend, named.solid, named.noHere, named.noUp]

def settle (path : Text) : List Text := (names path).foldl (descend (rootSlashes path != 0)) []

theorem settleSettled (path : Text) : Settled (rootSlashes path != 0) (settle path) :=
  namesSettled .empty fun _ member => splitPieces (List.mem_filter.mp member).1

theorem normalizeSettle (path : Text) :
    normalize path = render (rootSlashes path) (settle path).reverse := by
  unfold normalize
  simp only
  rw [descendNames]
  rfl

theorem slashesBound (path : Text) : rootSlashes path ≤ 2 := by
  unfold rootSlashes
  split <;> decide

theorem slashesNone (relative : path.head? ≠ some '/') : rootSlashes path = 0 := by
  unfold rootSlashes
  split <;> simp_all

theorem settleSlashes (path : Text) : rootSlashes (normalize path) = rootSlashes path := by
  have parts := settledParts (settleSettled path)
  have clear : (joinWith ['/'] (settle path).reverse).head? ≠ some '/' :=
    joinClear fun name member => parts name (List.mem_reverse.mp member)
  rw [normalizeSettle]
  unfold render
  simp only
  split
  · rename_i nothing
    have none := (List.append_eq_nil_iff.mp nothing).1
    rw [(List.replicate_eq_nil_iff _).mp none]
    rfl
  · rcases Nat.eq_zero_or_pos (rootSlashes path) with none | some
    · rw [none]
      exact slashesNone clear
    · exact leadSlashes clear (by have bound := slashesBound path; omega)

theorem settleAgain (path : Text) : settle (normalize path) = settle path := by
  have settled := settleSettled path
  have parts : ∀ name ∈ (settle path).reverse, IsPart name := fun name member =>
    settledParts settled name (List.mem_reverse.mp member)
  have again := settledAgain settled
  rw [settle, settleSlashes, normalizeSettle]
  unfold render
  simp only
  split
  · rename_i nothing
    -- Nothing is left: the normalized path is a dot.
    obtain ⟨none, empty⟩ := List.append_eq_nil_iff.mp nothing
    have same := joinNames parts
    rw [empty] at same
    rw [← again, ← same]
    rw [(List.replicate_eq_nil_iff _).mp none]
    rfl
  · rw [leadNames, joinNames parts]
    exact again

theorem normalizeTwice (path : Text) : normalize (normalize path) = normalize path := by
  rw [normalizeSettle (normalize path), settleSlashes, settleAgain, ← normalizeSettle]

/-! Joining a relative path puts its names behind those of the path. -/

def gap (path : Text) : Text := if path = [] ∨ endsWithChar '/' path then [] else ['/']

theorem joinAbsolutely (absolute : isAbsolute suffix = true) (path : Text) :
    join path suffix = suffix := if_pos absolute

theorem joinRelative (relative : isAbsolute suffix = false) (path : Text) :
    join path suffix = path ++ (gap path ++ suffix) := by
  unfold join gap
  rw [if_neg (by simp [relative])]
  split
  · rfl
  · rfl

theorem relativeHead : isAbsolute suffix = false ↔ suffix.head? ≠ some '/' := by
  cases suffix with
  | nil => simp [isAbsolute, startsWith, List.isPrefixOf]
  | cons c rest => simp [isAbsolute, startsWith, List.isPrefixOf, @eq_comm _ c]

theorem slashesFront (front : Text) {behind : Text} (clear : behind.head? ≠ some '/') :
    rootSlashes (front ++ behind) = rootSlashes front := by
  -- The first three characters decide.
  rcases front with _ | ⟨a, front⟩
  · exact slashesNone clear
  by_cases first : a = '/'
  · subst first
    rcases front with _ | ⟨b, front⟩
    · exact leadSlashes clear (.inl rfl : 1 = 1 ∨ 1 = 2)
    by_cases second : b = '/'
    · subst second
      rcases front with _ | ⟨c, front⟩
      · exact leadSlashes clear (.inr rfl : 2 = 1 ∨ 2 = 2)
      by_cases third : c = '/'
      · simp [rootSlashes, third]
      · simp [rootSlashes, third]
    · simp [rootSlashes, second]
  · simp [rootSlashes, first]

theorem gapForm (path : Text) : gap path = [] ∧ path = [] ∨
    (∃ front, gap path = [] ∧ path = front ++ ['/']) ∨
    ∃ front c, gap path = ['/'] ∧ path = front ++ [c] ∧ c ≠ '/' := by
  unfold gap
  rcases List.eq_nil_or_concat path with rfl | ⟨front, c, rfl⟩
  · exact .inl ⟨by simp, rfl⟩
  · rw [List.concat_eq_append]
    by_cases slash : c = '/'
    · subst slash
      exact .inr (.inl ⟨front, by simp [endsWithChar], rfl⟩)
    · exact .inr (.inr ⟨front, c, by simp [endsWithChar, slash], rfl, slash⟩)

theorem joinSlashes (relative : isAbsolute suffix = false) (path : Text) :
    rootSlashes (join path suffix) = rootSlashes path := by
  have clear := relativeHead.mp relative
  rw [joinRelative relative]
  obtain ⟨bare, rfl⟩ | ⟨front, bare, rfl⟩ | ⟨front, c, slash, rfl, other⟩ := gapForm path
  · rw [bare]
    exact slashesFront [] clear
  · rw [bare]
    exact slashesFront _ clear
  · rw [slash, List.append_assoc, slashesFront front (by simpa using other),
      slashesFront front (by simpa using other)]

theorem joinedNames (relative : isAbsolute suffix = false) (path : Text) :
    names (join path suffix) = names path ++ names suffix := by
  rw [joinRelative relative]
  obtain ⟨bare, rfl⟩ | ⟨front, bare, rfl⟩ | ⟨front, c, slash, rfl, other⟩ := gapForm path
  · rw [bare]
    rfl
  · have alone : names (front ++ ['/']) = names front ++ names [] := namesAppend front []
    rw [bare, List.nil_append, List.append_assoc, List.singleton_append, namesAppend, alone]
    simp [names, components, splitOn]
  · rw [slash, List.singleton_append, namesAppend]

theorem normalizeJoin (relative : isAbsolute suffix = false) (path : Text) :
    normalize (join (normalize path) suffix) = normalize (join path suffix) := by
  have through : ∀ front, settle (join front suffix) =
      (names suffix).foldl (descend (rootSlashes front != 0)) (settle front) := by
    intro front
    rw [settle, joinSlashes relative, joinedNames relative, List.foldl_append]
    rfl
  rw [normalizeSettle, normalizeSettle (join path suffix), joinSlashes relative,
    joinSlashes relative, through, through, settleSlashes, settleAgain]

theorem gapJoined (relative : isAbsolute suffix = false) (path : Text) :
    gap (join path suffix) = gap suffix := by
  rw [joinRelative relative]
  rcases List.eq_nil_or_concat suffix with rfl | ⟨front, c, rfl⟩
  · obtain ⟨bare, rfl⟩ | ⟨front, bare, rfl⟩ | ⟨front, c, slash, rfl, other⟩ := gapForm path
    · rw [bare]
      rfl
    · rw [bare]
      simp [gap, endsWithChar]
    · rw [slash]
      simp [gap, endsWithChar]
  · simp [gap, endsWithChar, List.concat_eq_append]

theorem joinJoin (path second third : Text) :
    join (join path second) third = join path (join second third) := by
  cases last : isAbsolute third with
  | true => rw [joinAbsolutely last, joinAbsolutely last, joinAbsolutely last]
  | false =>
    cases middle : isAbsolute second with
    | true => rw [joinAbsolutely middle, joinAbsolutely (joinAbsolute middle third)]
    | false =>
      have relative : isAbsolute (join second third) = false := by
        rw [relativeHead, joinRelative last]
        have one := relativeHead.mp middle
        have other := relativeHead.mp last
        cases second with
        | nil => exact other
        | cons c rest => exact one
      rw [joinRelative last, gapJoined middle, joinRelative middle, joinRelative relative,
        joinRelative last]
      simp only [List.append_assoc]

theorem joinNormal (path suffix : Text) :
    normalJoin (normalize path) suffix = normalJoin path suffix := by
  cases absolute : isAbsolute suffix with
  | true => rw [normalJoin, normalJoin, joinAbsolutely absolute, joinAbsolutely absolute]
  | false => exact normalizeJoin absolute path

theorem normalJoinJoin (path second third : Text) :
    normalJoin (normalJoin path second) third = normalJoin path (join second third) := by
  calc normalJoin (normalJoin path second) third
      = normalJoin (join path second) third := joinNormal (join path second) third
    _ = normalJoin path (join second third) := congrArg normalize (joinJoin path second third)

end MakeTree.Path
