import PrimeAgent.Cron.Schedule
import PrimeAgent.Lib.FirstDifference

/-! # Versions and update candidates

Two versions compare by their bases and then by the identifiers of their tags; an update is a newer version whose place
is not decided by an opaque identifier of a build. What is newer is transitive, and no update leads back.
-/
namespace PrimeAgent.Update

open FirstDifference Std

structure ParsedVersion where
  major : Nat
  minor : Nat
  patch : Nat
  prerelease : Option Text
  deriving DecidableEq

def normalizeReleaseVersion (version : Text) : Text :=
  (trim version).dropWhile (· == 'v')

def parsePackageVersion (version : Text) : Option ParsedVersion :=
  let withoutBuild := (normalizeReleaseVersion version).takeWhile (· ≠ '+')
  let (base, prerelease) := match splitOnce '-' withoutBuild with
    | some (base, prerelease) => (base, some prerelease)
    | none => (withoutBuild, none)
  match base.splitOn '.' with
  | [major, minor, patch] => do
    return ⟨← parseUnsigned 64 major, ← parseUnsigned 64 minor, ← parseUnsigned 64 patch, prerelease⟩
  | _ => none

def isNumeric (identifier : Text) : Bool :=
  identifier.all fun c => '0' ≤ c && c ≤ '9'

def trimZeros (identifier : Text) : Text :=
  identifier.dropWhile (· == '0')

def compareIdentifiers (left right : Text) : Ordering :=
  match isNumeric left, isNumeric right with
  | true, true =>
    (compare (trimZeros left).length (trimZeros right).length).then (compare (trimZeros left) (trimZeros right))
  | true, false => .lt
  | false, true => .gt
  | false, false => compare left right

def comparePrereleaseIdentifiers (left right : Text) : Ordering :=
  compareLists compareIdentifiers (left.splitOn '.') (right.splitOn '.')

/-- The order of `major.minor.patch`. -/
def ParsedVersion.compareBase (left right : ParsedVersion) : Ordering :=
  ((compare left.major right.major).then (compare left.minor right.minor)).then (compare left.patch right.patch)

def compareTags : Option Text → Option Text → Ordering
  | none, none => .eq
  | some _, none => .lt
  | none, some _ => .gt
  | some left, some right => if left = right then .eq else comparePrereleaseIdentifiers left right

def ParsedVersion.compare (left right : ParsedVersion) : Ordering :=
  let base := left.compareBase right
  if base ≠ .eq then base else compareTags left.prerelease right.prerelease

def comparePackageVersions (left right : Text) : Option Ordering := do
  return (← parsePackageVersion left).compare (← parsePackageVersion right)

def isNewerPackageVersion (candidateVersion currentVersion : Text) : Bool :=
  match comparePackageVersions candidateVersion currentVersion with
  | some ordering => ordering == .gt
  | none => trim candidateVersion ≠ trim currentVersion

def isBaseVersionDowngrade (candidateVersion currentVersion : Text) : Bool :=
  match parsePackageVersion candidateVersion, parsePackageVersion currentVersion with
  | some candidate, some current =>
    if candidate.major ≠ current.major then candidate.major < current.major
    else if candidate.minor ≠ current.minor then candidate.minor < current.minor
    else candidate.patch < current.patch
  | _, _ => false

inductive UpdateChannel where
  | stable
  | nightly
  deriving DecidableEq

def resolveUpdateChannel (currentVersion : Text) : Option UpdateChannel → UpdateChannel
  | some channel => channel
  | none => match (parsePackageVersion currentVersion).bind ParsedVersion.prerelease with
    | some prerelease => if "beta".toList.isPrefixOf prerelease then .nightly else .stable
    | none => .stable

def decidedByOpaqueIdentifier : List Text → List Text → Bool
  | [], [] => false
  | [], _ :: _ | _ :: _, [] => true
  | left :: candidate, right :: current =>
    if left = right then decidedByOpaqueIdentifier candidate current else !(isNumeric left && isNumeric right)

def sameBaseOpaqueBuildTag (candidateVersion currentVersion : Text) : Bool :=
  match parsePackageVersion candidateVersion, parsePackageVersion currentVersion with
  | some candidate, some current =>
    if candidate.major ≠ current.major ∨ candidate.minor ≠ current.minor ∨ candidate.patch ≠ current.patch then false
    else match candidate.prerelease, current.prerelease with
      | some candidateTag, some currentTag =>
        decidedByOpaqueIdentifier (candidateTag.splitOn '.') (currentTag.splitOn '.')
      | _, _ => false
  | _, _ => false

def isReleaseUpdateCandidate (candidateVersion currentVersion : Text) (channel : Option UpdateChannel) : Bool :=
  if (channel = none ∨ channel = some (resolveUpdateChannel currentVersion none)) ∧
      sameBaseOpaqueBuildTag candidateVersion currentVersion then false
  else if isNewerPackageVersion candidateVersion currentVersion then true
  else match channel with
    | none => false
    | some channel =>
      if channel = resolveUpdateChannel currentVersion none then false
      else if normalizeReleaseVersion candidateVersion = normalizeReleaseVersion currentVersion then false
      else match parsePackageVersion candidateVersion, parsePackageVersion currentVersion with
        | some candidate, some current =>
          if candidate.major ≠ current.major then current.major < candidate.major
          else if candidate.minor ≠ current.minor then current.minor < candidate.minor
          else current.patch ≤ candidate.patch
        | _, _ => true

variable {a b c candidate current : ParsedVersion} {left right x y z : Text}

instance : TransCmp compareIdentifiers where
  eq_swap {x y} := by
    unfold compareIdentifiers
    cases isNumeric x <;> cases isNumeric y
    · exact OrientedOrd.eq_swap
    · rfl
    · rfl
    · simp only [Ordering.swap_then]
      rw [← OrientedOrd.eq_swap, ← OrientedOrd.eq_swap]
  isLE_trans {x y z} hXY hYZ := by
    unfold compareIdentifiers at *
    cases hX : isNumeric x <;> cases hY : isNumeric y <;> cases hZ : isNumeric z <;>
      simp only [hX, hY, hZ] at hXY hYZ ⊢
    · exact TransOrd.isLE_trans hXY hYZ
    · exact absurd hYZ (by decide)
    · exact absurd hXY (by decide)
    · exact absurd hXY (by decide)
    · rfl
    · exact absurd hYZ (by decide)
    · rfl
    · exact @then_isLE_trans _ compare _ _ _ _ _ _ _ TransOrd.isLE_trans hXY hYZ

theorem eq_of_compareIdentifiers (hAlike : isNumeric x = true → isNumeric y = true → trimZeros x = trimZeros y → x = y)
    (hEq : compareIdentifiers x y = .eq) : x = y := by
  unfold compareIdentifiers at hEq
  cases hX : isNumeric x <;> cases hY : isNumeric y <;> rw [hX, hY] at hEq
  · exact LawfulEqOrd.eq_of_compare hEq
  · cases hEq
  · cases hEq
  · exact hAlike hX hY (LawfulEqOrd.eq_of_compare (Ordering.then_eq_eq.mp hEq).2)

instance : TransCmp ParsedVersion.compareBase :=
  inferInstanceAs (TransCmp (compareLex (compareLex (compareOn ParsedVersion.major) (compareOn ParsedVersion.minor))
    (compareOn ParsedVersion.patch)))

theorem compareBase_eq : a.compareBase b = .eq ↔ a.major = b.major ∧ a.minor = b.minor ∧ a.patch = b.patch := by
  rw [ParsedVersion.compareBase, Ordering.then_eq_eq, Ordering.then_eq_eq, Nat.compare_eq_eq, Nat.compare_eq_eq,
    Nat.compare_eq_eq, and_assoc]

theorem compare_eq_then : a.compare b = (a.compareBase b).then (compareTags a.prerelease b.prerelease) := by
  unfold ParsedVersion.compare
  cases a.compareBase b <;> rfl

theorem compareTags_some (tag tag' : Text) :
    compareTags (some tag) (some tag') = comparePrereleaseIdentifiers tag tag' := by
  rw [compareTags]
  split
  next h => rw [h, comparePrereleaseIdentifiers, compareLists_self]
  next => rfl

theorem compareTags_swap (tag tag' : Option Text) : compareTags tag tag' = (compareTags tag' tag).swap := by
  cases tag <;> cases tag'
  · rfl
  · rfl
  · rfl
  · rw [compareTags_some, compareTags_some, comparePrereleaseIdentifiers, comparePrereleaseIdentifiers]
    exact compareLists_swap _ _

theorem compareTags_gt_trans : ∀ {tag tag' tag'' : Option Text}, compareTags tag tag' = .gt →
    compareTags tag' tag'' = .gt → compareTags tag tag'' = .gt
  | none, none, _, hFirst, _ => by cases hFirst
  | some _, none, _, hFirst, _ => by cases hFirst
  | _, some _, none, _, hSecond => by cases hSecond
  | none, some _, some _, _, _ => rfl
  | some _, some _, some _, hFirst, hSecond => by
    rw [compareTags_some] at *
    exact compareLists_gt_trans hFirst hSecond

theorem compare_swap (a b : ParsedVersion) : a.compare b = (b.compare a).swap := by
  rw [compare_eq_then, compare_eq_then, Ordering.swap_then, ← OrientedCmp.eq_swap, ← compareTags_swap]

theorem compare_self (a : ParsedVersion) : a.compare a = .eq := by
  rw [compare_eq_then, @ReflCmp.compare_self _ ParsedVersion.compareBase, Ordering.eq_then]
  cases a.prerelease with
  | none => rfl
  | some tag => rw [compareTags, if_pos rfl]

theorem compare_gt_trans (hFirst : a.compare b = .gt) (hSecond : b.compare c = .gt) : a.compare c = .gt := by
  rw [compare_eq_then] at *
  exact then_gt_trans compareTags_gt_trans hFirst hSecond

def identifiers (tag : Option Text) : List Text :=
  tag.elim [] (·.splitOn '.')

def SpelledAlike (identifiers : List Text) : Prop :=
  ∀ x ∈ identifiers, ∀ y ∈ identifiers, isNumeric x = true → isNumeric y = true → trimZeros x = trimZeros y → x = y

theorem compareTags_isLE_trans : ∀ {tag tag' tag'' : Option Text},
    SpelledAlike (identifiers tag ++ identifiers tag' ++ identifiers tag'') → (compareTags tag tag').isLE = true →
      (compareTags tag' tag'').isLE = true → (compareTags tag tag'').isLE = true
  | none, some _, _, _, hFirst, _ => by cases hFirst
  | _, none, some _, _, _, hSecond => by cases hSecond
  | none, none, none, _, _, _ => rfl
  | some _, _, none, _, _, _ => rfl
  | some _, some _, some _, hAlike, hFirst, hSecond => by
    rw [compareTags_some] at *
    exact compareLists_isLE_trans (fun x hX y hY hEq => eq_of_compareIdentifiers (hAlike x hX y hY) hEq) hFirst hSecond

theorem compare_isLE_trans
    (hAlike : SpelledAlike (identifiers a.prerelease ++ identifiers b.prerelease ++ identifiers c.prerelease))
    (hFirst : (a.compare b).isLE = true) (hSecond : (b.compare c).isLE = true) : (a.compare c).isLE = true := by
  rw [compare_eq_then] at *
  exact then_isLE_trans (compareTags_isLE_trans hAlike) hFirst hSecond

theorem comparePackageVersions_of_parsed (hX : parsePackageVersion x = some a) (hY : parsePackageVersion y = some b) :
    comparePackageVersions x y = some (a.compare b) := by
  rw [comparePackageVersions, hX, hY]
  rfl

theorem isLE_iff_ne_gt {ordering : Ordering} : ordering.isLE = true ↔ some ordering ≠ some .gt := by
  cases ordering <;> simp

def LaterBuild (left right : Text) : Prop :=
  isNumeric left = true ∧ isNumeric right = true ∧ compareIdentifiers left right = .gt

theorem laterBuild_iff {candidate current : List Text} : Ahead LaterBuild candidate current ↔
    compareLists compareIdentifiers candidate current = .gt ∧ decidedByOpaqueIdentifier candidate current = false := by
  induction candidate generalizing current with
  | nil => cases current <;> simp [Ahead, compareLists]
  | cons x candidate ih =>
    cases current with
    | nil => simp [Ahead, decidedByOpaqueIdentifier]
    | cons y current =>
      rw [Ahead, compareLists, decidedByOpaqueIdentifier]
      rcases eq_or_ne x y with rfl | hNe
      · rw [if_pos rfl, if_pos rfl, ← ih, or_iff_right]
        · simp
        · rintro ⟨-, -, hGt⟩
          simp [ReflCmp.compare_self] at hGt
      · rw [if_neg hNe, if_neg hNe]
        simp [LaterBuild, hNe]
        tauto

def TagUpdates : Option Text → Option Text → Prop
  | none, some _ => True
  | some candidate, some current => Ahead LaterBuild (candidate.splitOn '.') (current.splitOn '.')
  | _, none => False

def Updates (candidate current : ParsedVersion) : Prop :=
  candidate.compareBase current = .gt ∨
    candidate.compareBase current = .eq ∧ TagUpdates candidate.prerelease current.prerelease

theorem candidate_iff : isReleaseUpdateCandidate x y none = true ↔
    sameBaseOpaqueBuildTag x y = false ∧ isNewerPackageVersion x y = true := by
  unfold isReleaseUpdateCandidate
  cases sameBaseOpaqueBuildTag x y <;> cases isNewerPackageVersion x y <;> simp

theorem updates_iff (hCandidate : parsePackageVersion x = some candidate) (hCurrent : parsePackageVersion y = some current) :
    isReleaseUpdateCandidate x y none = true ↔ Updates candidate current := by
  have hNewer : isNewerPackageVersion x y = true ↔ candidate.compare current = .gt := by
    simp [isNewerPackageVersion, comparePackageVersions_of_parsed hCandidate hCurrent]
  rw [candidate_iff, hNewer, compare_eq_then, Updates]
  unfold sameBaseOpaqueBuildTag
  simp only [hCandidate, hCurrent]
  cases hBase : candidate.compareBase current with
  | eq =>
    obtain ⟨hMajor, hMinor, hPatch⟩ := compareBase_eq.mp hBase
    rw [if_neg (by simp [hMajor, hMinor, hPatch]), Ordering.eq_then]
    cases candidate.prerelease <;> cases current.prerelease
    · simp [compareTags, TagUpdates]
    · simp [compareTags, TagUpdates]
    · simp [compareTags, TagUpdates]
    · simp [compareTags_some, comparePrereleaseIdentifiers, TagUpdates, laterBuild_iff, and_comm]
  | lt => simp
  | gt =>
    have hDiffer : candidate.major ≠ current.major ∨ candidate.minor ≠ current.minor ∨ candidate.patch ≠ current.patch := by
      by_contra hSame
      simp only [not_or, not_not] at hSame
      rw [compareBase_eq.mpr hSame] at hBase
      cases hBase
    simp [hDiffer]

theorem TagUpdates.trans : ∀ {tag tag' tag'' : Option Text}, TagUpdates tag tag' → TagUpdates tag' tag'' →
    TagUpdates tag tag''
  | none, none, _, hFirst, _ => hFirst.elim
  | some _, none, _, hFirst, _ => hFirst.elim
  | _, some _, none, _, hSecond => hSecond.elim
  | none, some _, some _, _, _ => trivial
  | some _, some _, some _, hFirst, hSecond =>
    Ahead.trans (fun _ _ _ hXY hYZ => ⟨hXY.1, hYZ.2.1, TransCmp.gt_trans hXY.2.2 hYZ.2.2⟩) hFirst hSecond

theorem Updates.trans (hFirst : Updates a b) (hSecond : Updates b c) : Updates a c := by
  obtain hAB | ⟨hAB, hTag⟩ := hFirst <;> obtain hBC | ⟨hBC, hTag'⟩ := hSecond
  · exact Or.inl (TransCmp.gt_trans hAB hBC)
  · exact Or.inl (TransCmp.gt_of_gt_of_eq hAB hBC)
  · exact Or.inl (TransCmp.gt_of_eq_of_gt hAB hBC)
  · exact Or.inr ⟨TransCmp.eq_trans hAB hBC, hTag.trans hTag'⟩

theorem not_updates_self : ¬ Updates a a := by
  rintro (hGt | ⟨-, hTag⟩)
  · rw [@ReflCmp.compare_self _ ParsedVersion.compareBase] at hGt
    cases hGt
  · cases hPrerelease : a.prerelease with
    | none => rw [hPrerelease] at hTag; exact hTag
    | some tag =>
      rw [hPrerelease] at hTag
      refine not_ahead_self (fun x hX => ?_) _ hTag
      have hGt := hX.2.2
      rw [@ReflCmp.compare_self _ compareIdentifiers] at hGt
      cases hGt

theorem not_downgrade (hCandidate : isReleaseUpdateCandidate x y none = true) : isBaseVersionDowngrade x y = false := by
  unfold isBaseVersionDowngrade
  cases hX : parsePackageVersion x with
  | none => rfl
  | some candidate =>
    cases hY : parsePackageVersion y with
    | none => rfl
    | some current =>
      have hBase : candidate.compareBase current ≠ .lt := by
        obtain hGt | ⟨hEq, -⟩ := (updates_iff hX hY).mp hCandidate
        · simp [hGt]
        · simp [hEq]
      rw [ParsedVersion.compareBase] at hBase
      simp only [ne_eq, Ordering.then_eq_lt, Ordering.then_eq_eq, Nat.compare_eq_lt, Nat.compare_eq_eq, not_or, not_and,
        Nat.not_lt] at hBase
      grind

def Follows (next current : Text) : Prop :=
  (∃ version, parsePackageVersion next = some version) ∧ (∃ version, parsePackageVersion current = some version) ∧
    isReleaseUpdateCandidate next current none = true

theorem follows_iff : Follows x y ↔ ∃ next current, parsePackageVersion x = some next ∧
    parsePackageVersion y = some current ∧ Updates next current := by
  constructor
  · rintro ⟨⟨next, hNext⟩, ⟨current, hCurrent⟩, hCandidate⟩
    exact ⟨next, current, hNext, hCurrent, (updates_iff hNext hCurrent).mp hCandidate⟩
  · rintro ⟨next, current, hNext, hCurrent, hUpdates⟩
    exact ⟨⟨next, hNext⟩, ⟨current, hCurrent⟩, (updates_iff hNext hCurrent).mpr hUpdates⟩

theorem Follows.trans (hFirst : Follows x y) (hSecond : Follows y z) : Follows x z := by
  obtain ⟨a, b, hX, hY, hAB⟩ := follows_iff.mp hFirst
  obtain ⟨b', c, hY', hZ, hBC⟩ := follows_iff.mp hSecond
  obtain rfl := Option.some.inj (hY.symm.trans hY')
  exact follows_iff.mpr ⟨a, c, hX, hZ, hAB.trans hBC⟩

theorem not_follows_self : ¬ Follows x x := by
  intro hFollows
  obtain ⟨a, b, hX, hX', hAB⟩ := follows_iff.mp hFollows
  obtain rfl := Option.some.inj (hX.symm.trans hX')
  exact not_updates_self hAB

theorem candidate_of_unparsed (hNone : parsePackageVersion x = none ∨ parsePackageVersion y = none) :
    isReleaseUpdateCandidate x y none = true ↔ trim x ≠ trim y := by
  have hCompare : comparePackageVersions x y = none := by
    obtain hX | hY := hNone
    · simp [comparePackageVersions, hX]
    · cases hX : parsePackageVersion x <;> simp [comparePackageVersions, hX, hY]
  have hTag : sameBaseOpaqueBuildTag x y = false := by
    unfold sameBaseOpaqueBuildTag
    obtain hX | hY := hNone
    · rw [hX]
    · cases hX : parsePackageVersion x <;> rw [hY]
  rw [candidate_iff, isNewerPackageVersion, hCompare]
  simp [hTag]

end PrimeAgent.Update
