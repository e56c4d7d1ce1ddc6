import PrimeAgent.Tools.BashGuard

/-! # What the shell quotes

The lexical states of a shell command: the open quotes and substitutions, one within the other. The scanner of the guard
follows them as long as it meets none of the constructs it does not know.
-/
namespace PrimeAgent.Tools

namespace Shell

/-- What is open: double quotes, `$(` with the number of its open parentheses, a backtick. -/
inductive Frame where
  | dquote
  | substitution (depth : Nat)
  | tick
deriving DecidableEq

inductive Mode where
  | plain
  | single
  | comment
  | escape
deriving DecidableEq

/-- The parenthesis that leads from a substitution back into double quotes is neither run nor quoted. -/
inductive Role where
  | live
  | data
  | delimiter
  | closing
deriving DecidableEq

/-- The innermost frame comes first; `opening` is set between the two characters of `$(`. -/
structure State where
  frames : List Frame
  mode : Mode
  wordStart : Bool
  opening : Bool
deriving DecidableEq

def State.initial : State := ⟨[], .plain, true, false⟩

def isMeta (ch : Char) : Bool :=
  [' ', '\t', '\n', ';', '&', '|', '<', '>'].contains ch

def opensSubstitution (ch : Char) (next : Option Char) : Bool :=
  ch == '$' && next == some '('

def stepQuoted (s : State) (outer : List Frame) (ch : Char) (next : Option Char) : Role × State :=
  if s.opening then (.delimiter, ⟨.substitution 1 :: s.frames, .plain, true, false⟩)
  else if ch = '"' then (.delimiter, ⟨outer, .plain, false, false⟩)
  else if ch = '\\' then (.data, { s with mode := .escape })
  else if opensSubstitution ch next then (.delimiter, { s with opening := true })
  else if ch = '`' then (.delimiter, ⟨.tick :: s.frames, .plain, true, false⟩)
  else (.data, s)

def openParenthesis (s : State) : List Frame :=
  if s.opening then .substitution 1 :: s.frames
  else match s.frames with
    | .substitution depth :: outer => .substitution (depth + 1) :: outer
    | frames => frames

def closeParenthesis : List Frame → List Frame × Bool
  | .substitution depth :: outer => if depth ≤ 1 then (outer, true) else (.substitution (depth - 1) :: outer, false)
  | frames => (frames, false)

def toggleTick : List Frame → List Frame × Bool
  | .tick :: outer => (outer, false)
  | frames => (.tick :: frames, true)

def stepCommand (s : State) (ch : Char) (next : Option Char) : Role × State :=
  if ch = '\\' then (.live, ⟨s.frames, .escape, false, false⟩)
  else if ch = '\'' then (.delimiter, ⟨s.frames, .single, false, false⟩)
  else if ch = '"' then (.delimiter, ⟨.dquote :: s.frames, .plain, false, false⟩)
  else if ch = '#' ∧ s.wordStart = true then (.data, ⟨s.frames, .comment, true, false⟩)
  else if ch = '`' then (.live, ⟨(toggleTick s.frames).1, .plain, (toggleTick s.frames).2, false⟩)
  else if ch = '(' then (.live, ⟨openParenthesis s, .plain, true, false⟩)
  else if ch = ')' then
    (if (closeParenthesis s.frames).2 ∧ (closeParenthesis s.frames).1.head? = some .dquote then .closing else .live,
      ⟨(closeParenthesis s.frames).1, .plain, !(closeParenthesis s.frames).2, false⟩)
  else (.live, ⟨s.frames, .plain, isMeta ch, opensSubstitution ch next⟩)

def quoted (s : State) : Bool :=
  s.frames.head? == some .dquote

def step (s : State) (ch : Char) (next : Option Char) : Role × State :=
  match s.mode with
  | .single => if ch = '\'' then (.delimiter, ⟨s.frames, .plain, false, false⟩) else (.data, s)
  | .comment => if ch = '\n' then (.live, ⟨s.frames, .plain, true, false⟩) else (.data, s)
  | .escape => (if quoted s then .data else .live, ⟨s.frames, .plain, false, false⟩)
  | .plain =>
    match s.frames with
    | .dquote :: outer => stepQuoted s outer ch next
    | _ => stepCommand s ch next

def rolesFrom : State → Text → List Role
  | _, [] => []
  | s, ch :: rest => (step s ch rest.head?).1 :: rolesFrom (step s ch rest.head?).2 rest

def roles (command : Text) : List Role :=
  rolesFrom .initial command

/-! ## What the guard's scanner does not know -/

/-- Outside of double quotes: an escaped quote, and a `#` where it takes a comment and the shell does not or the other way
round. In double quotes: a backtick. In a substitution there: quotes and comments, and parentheses that are escaped or in a
backtick's command. -/
def trapped (s : State) (prev : Option Char) (ch : Char) : Bool :=
  if s.frames.contains .dquote then
    match s.mode, s.frames.head? with
    | .plain, some .dquote => !s.opening && ch == '`'
    | .escape, some .dquote => false
    | .plain, some .tick => ch == '\'' || ch == '"' || (ch == '#' && s.wordStart) || (ch == '(' && !s.opening) || ch == ')'
    | .plain, _ => ch == '\'' || ch == '"' || (ch == '#' && s.wordStart)
    | .escape, _ => ch == '(' || ch == ')'
    | _, _ => false
  else
    match s.mode with
    | .escape => ch == '\'' || ch == '"'
    | .plain => ch == '#' && opensComment prev != s.wordStart
    | _ => false

def untrappedFrom : State → Option Char → Text → Bool
  | _, _, [] => true
  | s, prev, ch :: rest => !trapped s prev ch && untrappedFrom (step s ch rest.head?).2 (some ch) rest

def untrapped (command : Text) : Bool :=
  untrappedFrom .initial none command

/-! ## The scanner follows the shell -/

def paint (role : Role) (ch : Char) : Char :=
  match role with
  | .live | .delimiter => ch
  | .data | .closing => ' '

def blankFrom (s : State) (chars : Text) : Text :=
  List.zipWith paint (rolesFrom s chars) chars

theorem blankFrom_cons (s : State) (ch : Char) (rest : Text) : blankFrom s (ch :: rest) =
    paint (step s ch rest.head?).1 ch :: blankFrom (step s ch rest.head?).2 rest := rfl

theorem untrappedFrom_cons {s : State} {prev : Option Char} {ch : Char} {rest : Text}
    (hUntrapped : untrappedFrom s prev (ch :: rest) = true) :
    trapped s prev ch = false ∧ untrappedFrom (step s ch rest.head?).2 (some ch) rest = true := by
  simpa [untrappedFrom] using hUntrapped

section Scanning

variable {s : State} {prev prev' : Option Char} {ch : Char} {rest chars : Text} {base : List Frame} {wordStart : Bool}
  {fuel : Nat} {inner : List Frame} {frames : List Frame}

theorem blankFrom_comment (hMode : s.mode = .comment) (hUntrapped : untrappedFrom s prev chars = true) :
    blankFrom s chars = (chars.takeWhile (· ≠ '\n')).map (fun _ => ' ') ++ blankFrom s (chars.dropWhile (· ≠ '\n')) ∧
      ∃ prev', untrappedFrom s prev' (chars.dropWhile (· ≠ '\n')) = true := by
  induction chars generalizing prev with
  | nil => exact ⟨rfl, prev, hUntrapped⟩
  | cons ch rest ih =>
    by_cases hLine : ch = '\n'
    · rw [List.takeWhile_cons_of_neg (by simpa using hLine), List.dropWhile_cons_of_neg (by simpa using hLine)]
      exact ⟨rfl, prev, hUntrapped⟩
    · rw [List.takeWhile_cons_of_pos (by simpa using hLine), List.dropWhile_cons_of_pos (by simpa using hLine)]
      obtain ⟨-, hRest⟩ := untrappedFrom_cons hUntrapped
      have hStep : step s ch rest.head? = (.data, s) := by
        rw [step, hMode]
        exact if_neg hLine
      rw [blankFrom_cons, hStep]
      rw [hStep] at hRest
      obtain ⟨hBlank, hLater⟩ := ih hRest
      exact ⟨congrArg (' ' :: ·) hBlank, hLater⟩

/-! ### Substitutions in double quotes -/

def openParens : List Frame → Nat
  | [] => 0
  | .substitution depth :: frames => depth + openParens frames
  | _ :: frames => openParens frames

/-- Open substitutions, each with a parenthesis of its own, the outermost behind the double quotes. -/
structure Nested (inner : List Frame) : Prop where
  noQuotes : .dquote ∉ inner
  opened : ∀ depth, .substitution depth ∈ inner → 0 < depth
  outermost : ∃ depth, inner.getLast? = some (.substitution depth)

theorem Nested.tail {frame : Frame} {inner : List Frame} (hNested : Nested (frame :: inner)) (hSome : inner ≠ []) :
    Nested inner where
  noQuotes hMem := hNested.noQuotes (List.mem_cons_of_mem _ hMem)
  opened depth hMem := hNested.opened depth (List.mem_cons_of_mem _ hMem)
  outermost := by
    obtain ⟨depth, hLast⟩ := hNested.outermost
    exact ⟨depth, by rw [← hLast, List.getLast?_cons_of_ne_nil hSome]⟩

theorem Nested.openParens_pos (hNested : Nested inner) : 0 < openParens inner := by
  induction inner with
  | nil => cases hNested.outermost.choose_spec
  | cons frame inner ih =>
    cases inner with
    | nil =>
      obtain ⟨depth, hLast⟩ := hNested.outermost
      obtain rfl := Option.some.inj hLast
      exact hNested.opened depth List.mem_cons_self
    | cons next inner =>
      have hRest := ih (hNested.tail (List.cons_ne_nil _ _))
      cases frame with
      | substitution depth => exact Nat.add_pos_right depth hRest
      | dquote | tick => exact hRest

theorem Nested.push {frame : Frame} (hNested : Nested inner) (hFrame : frame ≠ .dquote)
    (hOpened : ∀ depth, frame = .substitution depth → 0 < depth) : Nested (frame :: inner) where
  noQuotes hMem := by
    rcases List.mem_cons.mp hMem with hEq | hLater
    · exact hFrame hEq.symm
    · exact hNested.noQuotes hLater
  opened depth hMem := by
    rcases List.mem_cons.mp hMem with hEq | hLater
    · exact hOpened depth hEq.symm
    · exact hNested.opened depth hLater
  outermost := by
    obtain ⟨depth, hLast⟩ := hNested.outermost
    have hSome : inner ≠ [] := by
      rintro rfl
      cases hLast
    exact ⟨depth, by rw [List.getLast?_cons_of_ne_nil hSome, hLast]⟩

theorem Nested.change {depth depth' : Nat} (hNested : Nested (.substitution depth :: inner)) (hPos : 0 < depth') :
    Nested (.substitution depth' :: inner) := by
  cases inner with
  | nil =>
    exact ⟨by simp, fun d hMem => by
      obtain rfl := Frame.substitution.inj (List.mem_singleton.mp hMem)
      exact hPos, ⟨depth', rfl⟩⟩
  | cons next inner =>
    refine (hNested.tail (List.cons_ne_nil _ _)).push (by simp) fun d hEq => ?_
    obtain rfl := Frame.substitution.inj hEq
    exact hPos

theorem substitution_open (depth : Nat) (rest : Text) :
    substitution depth ('(' :: rest) = ('(' :: (substitution (depth + 1) rest).1, (substitution (depth + 1) rest).2) := by
  rw [substitution, if_pos rfl]

theorem substitution_close {depth : Nat} (hDeep : 1 < depth) (rest : Text) :
    substitution depth (')' :: rest) = (')' :: (substitution (depth - 1) rest).1, (substitution (depth - 1) rest).2) := by
  rw [substitution, if_neg (by decide), if_pos rfl, if_neg (by omega)]

theorem substitution_other (hOpen : ch ≠ '(') (hClose : ch ≠ ')') (depth : Nat) (rest : Text) :
    substitution depth (ch :: rest) = (ch :: (substitution depth rest).1, (substitution depth rest).2) := by
  rw [substitution, if_neg hOpen, if_neg hClose]

def between (base : List Frame) : State :=
  ⟨.dquote :: base, .plain, false, false⟩

def CopiedUpTo (base : List Frame) (s : State) (depth : Nat) (chars : Text) : Prop :=
  blankFrom s chars = (substitution depth chars).1 ++ blankFrom (between base) (substitution depth chars).2 ∧
    ∃ prev, untrappedFrom (between base) prev (substitution depth chars).2 = true

theorem CopiedUpTo.cons {s' : State} {depth depth' : Nat} {role : Role}
    (hStep : step s ch rest.head? = (role, s')) (hPaint : paint role ch = ch)
    (hSubstitution : substitution depth (ch :: rest) = (ch :: (substitution depth' rest).1, (substitution depth' rest).2))
    (hRest : CopiedUpTo base s' depth' rest) : CopiedUpTo base s depth (ch :: rest) := by
  obtain ⟨hBlank, hUntrapped⟩ := hRest
  refine ⟨?_, ?_⟩
  · rw [blankFrom_cons, hStep, hPaint, hSubstitution, hBlank]
    rfl
  · rw [hSubstitution]
    exact hUntrapped

theorem copiedUpTo_nested {mode : Mode} {opening : Bool} (hNested : Nested inner)
    (hMode : mode = .plain ∨ mode = .escape)
    (hUntrapped : untrappedFrom ⟨inner ++ .dquote :: base, mode, wordStart, opening⟩ prev chars = true) :
    CopiedUpTo base ⟨inner ++ .dquote :: base, mode, wordStart, opening⟩ (openParens inner) chars := by
  induction chars generalizing inner mode wordStart opening prev with
  | nil => exact ⟨rfl, none, rfl⟩
  | cons ch rest ih =>
    obtain ⟨hNo, hRest⟩ := untrappedFrom_cons hUntrapped
    obtain ⟨frame, inner, rfl⟩ : ∃ frame tail, inner = frame :: tail := by
      cases inner with
      | nil => cases hNested.outermost.choose_spec
      | cons frame tail => exact ⟨frame, tail, rfl⟩
    have hFrame : frame ≠ .dquote := fun hEq => hNested.noQuotes (hEq ▸ List.mem_cons_self)
    have hInside : (frame :: inner ++ .dquote :: base).contains Frame.dquote = true := by simp
    rcases hMode with rfl | rfl
    · rw [trapped, if_pos hInside] at hNo
      have hKnown : (ch ≠ '\'' ∧ ch ≠ '"' ∧ ¬ (ch = '#' ∧ wordStart = true)) ∧
          (frame = .tick → (ch = '(' → opening = true) ∧ ch ≠ ')') := by
        cases frame with
        | dquote => exact absurd rfl hFrame
        | substitution =>
          refine ⟨?_, fun hTick => nomatch hTick⟩
          simpa [and_assoc] using hNo
        | tick =>
          simp only [List.cons_append, List.head?_cons, Bool.or_eq_false_iff, beq_eq_false_iff_ne, Bool.and_eq_false_iff,
            Bool.not_eq_false'] at hNo
          obtain ⟨⟨⟨⟨hSingle, hDouble⟩, hComment⟩, hOpen⟩, hClose⟩ := hNo
          refine ⟨⟨hSingle, hDouble, fun hHash => ?_⟩, fun _ => ⟨fun hEq => ?_, hClose⟩⟩
          · rcases hComment with hNe | hWord
            · exact hNe hHash.1
            · rw [hHash.2] at hWord
              cases hWord
          · rcases hOpen with hNe | hOpening
            · exact absurd hEq hNe
            · exact hOpening
      obtain ⟨⟨hSingle, hDouble, hComment⟩, hTick⟩ := hKnown
      have hCommand : step ⟨frame :: inner ++ .dquote :: base, .plain, wordStart, opening⟩ ch rest.head? =
          stepCommand ⟨frame :: inner ++ .dquote :: base, .plain, wordStart, opening⟩ ch rest.head? := by
        cases frame with
        | dquote => exact absurd rfl hFrame
        | substitution => rfl
        | tick => rfl
      rw [stepCommand, if_neg hSingle, if_neg hDouble, if_neg hComment] at hCommand
      by_cases hEscape : ch = '\\'
      · subst hEscape
        rw [if_pos rfl] at hCommand
        rw [hCommand] at hRest
        exact .cons hCommand rfl (substitution_other (by decide) (by decide) _ _) (ih hNested (Or.inr rfl) hRest)
      rw [if_neg hEscape] at hCommand
      by_cases hBacktick : ch = '`'
      · subst hBacktick
        rw [if_pos rfl] at hCommand
        obtain ⟨inner', hInner, hNested', hParens⟩ : ∃ inner', (toggleTick (frame :: inner ++ .dquote :: base)).1 =
            inner' ++ .dquote :: base ∧ Nested inner' ∧ openParens inner' = openParens (frame :: inner) := by
          cases frame with
          | dquote => exact absurd rfl hFrame
          | substitution depth =>
            exact ⟨.tick :: .substitution depth :: inner, rfl, hNested.push (by simp) (fun _ hEq => nomatch hEq), rfl⟩
          | tick =>
            refine ⟨inner, rfl, hNested.tail ?_, rfl⟩
            rintro rfl
            obtain ⟨depth, hLast⟩ := hNested.outermost
            cases hLast
        rw [hInner] at hCommand
        rw [hCommand] at hRest
        rw [← hParens]
        exact .cons hCommand rfl (substitution_other (by decide) (by decide) _ _) (ih hNested' (Or.inl rfl) hRest)
      rw [if_neg hBacktick] at hCommand
      by_cases hOpen : ch = '('
      · subst hOpen
        rw [if_pos rfl] at hCommand
        obtain ⟨inner', hInner, hNested', hParens⟩ : ∃ inner',
            openParenthesis ⟨frame :: inner ++ .dquote :: base, .plain, wordStart, opening⟩ = inner' ++ .dquote :: base ∧
              Nested inner' ∧ openParens inner' = openParens (frame :: inner) + 1 := by
          rw [openParenthesis]
          cases opening with
          | true =>
            refine ⟨.substitution 1 :: frame :: inner, rfl, hNested.push (by simp) fun depth hEq => ?_, Nat.add_comm 1 _⟩
            obtain rfl := Frame.substitution.inj hEq
            exact Nat.one_pos
          | false =>
            cases frame with
            | dquote => exact absurd rfl hFrame
            | substitution depth =>
              exact ⟨.substitution (depth + 1) :: inner, rfl, hNested.change (Nat.succ_pos _), Nat.add_right_comm _ _ _⟩
            | tick => cases (hTick rfl).1 rfl
        rw [hInner] at hCommand
        rw [hCommand] at hRest
        refine .cons hCommand rfl (substitution_open _ _) ?_
        rw [← hParens]
        exact ih hNested' (Or.inl rfl) hRest
      rw [if_neg hOpen] at hCommand
      by_cases hClose : ch = ')'
      · subst hClose
        rw [if_pos rfl] at hCommand
        obtain ⟨depth, rfl⟩ : ∃ depth, frame = .substitution depth := by
          cases frame with
          | dquote => exact absurd rfl hFrame
          | substitution depth => exact ⟨depth, rfl⟩
          | tick => exact absurd rfl (hTick rfl).2
        have hPos := hNested.opened depth List.mem_cons_self
        by_cases hLast : depth ≤ 1
        · rw [List.cons_append, closeParenthesis, if_pos hLast] at hCommand
          cases inner with
          | nil =>
            have hEnd : substitution (openParens [.substitution depth]) (')' :: rest) = ([], ')' :: rest) := by
              rw [substitution, if_neg (by decide), if_pos rfl, if_pos (show openParens [.substitution depth] ≤ 1 from hLast)]
            have hStep : step (between base) ')' rest.head? = (.data, between base) := rfl
            rw [CopiedUpTo, hEnd, blankFrom_cons, List.cons_append, hCommand, List.nil_append, blankFrom_cons, hStep]
            refine ⟨rfl, prev, ?_⟩
            rw [List.cons_append, hCommand] at hRest
            have hFree : trapped (between base) prev ')' = false := by
              rw [trapped, between, if_pos (by simp)]
              rfl
            rw [untrappedFrom, hFree, hStep]
            exact hRest
          | cons next inner =>
            have hNested' := hNested.tail (List.cons_ne_nil _ _)
            have hLive : ¬ ((next :: inner ++ Frame.dquote :: base, true).2 = true ∧
                (next :: inner ++ Frame.dquote :: base, true).1.head? = some .dquote) := by
              rintro ⟨-, hEq⟩
              obtain rfl := Option.some.inj hEq
              exact hNested'.noQuotes List.mem_cons_self
            rw [if_neg hLive] at hCommand
            rw [List.cons_append, hCommand] at hRest
            have hMore := hNested'.openParens_pos
            have hDeep : 1 < openParens (.substitution depth :: next :: inner) := by
              rw [openParens]
              omega
            have hSame : openParens (.substitution depth :: next :: inner) - 1 = openParens (next :: inner) := by
              rw [openParens]
              omega
            refine .cons hCommand rfl (substitution_close hDeep _) ?_
            rw [hSame]
            exact ih hNested' (Or.inl rfl) hRest
        · rw [List.cons_append, closeParenthesis, if_neg hLast] at hCommand
          rw [if_neg (fun hBoth => by cases hBoth.1)] at hCommand
          rw [List.cons_append, hCommand] at hRest
          have hDeep : 1 < openParens (.substitution depth :: inner) := by
            rw [openParens]
            omega
          have hSame : openParens (.substitution depth :: inner) - 1 = openParens (.substitution (depth - 1) :: inner) := by
            rw [openParens, openParens]
            omega
          refine .cons hCommand rfl (substitution_close hDeep _) ?_
          rw [hSame]
          exact ih (hNested.change (by omega)) (Or.inl rfl) hRest
      · rw [if_neg hClose] at hCommand
        rw [hCommand] at hRest
        exact .cons hCommand rfl (substitution_other hOpen hClose _ _) (ih hNested (Or.inl rfl) hRest)
    · -- an escaped character
      rw [trapped, if_pos hInside] at hNo
      have hParens : ch ≠ '(' ∧ ch ≠ ')' := by
        cases frame with
        | dquote => exact absurd rfl hFrame
        | substitution | tick => simpa using hNo
      have hStep : step ⟨frame :: inner ++ .dquote :: base, .escape, wordStart, opening⟩ ch rest.head? =
          (.live, ⟨frame :: inner ++ .dquote :: base, .plain, false, false⟩) := by
        cases frame with
        | dquote => exact absurd rfl hFrame
        | substitution => rfl
        | tick => rfl
      rw [hStep] at hRest
      exact .cons hStep rfl (substitution_other hParens.1 hParens.2 _ _) (ih hNested (Or.inl rfl) hRest)

/-! ### The simulation -/

structure AtTop (s : State) (prev prev' : Option Char) (chars : Text) : Prop where
  noQuotes : .dquote ∉ s.frames
  mode : (s.mode = .plain ∧ prev' = prev) ∨ (s.mode = .escape ∧ prev' = some '\\') ∨
    (s.mode = .comment ∧ ∀ c, chars.head? = some c → c = '\n')

structure Follows (fuel : Nat) : Prop where
  top : ∀ {s prev prev' chars}, chars.length ≤ fuel → AtTop s prev prev' chars → untrappedFrom s prev chars = true →
    maskFrom fuel prev' none chars = blankFrom s chars
  inSingle : ∀ {s prev prev' chars}, chars.length ≤ fuel → s.mode = .single → .dquote ∉ s.frames →
    untrappedFrom s prev chars = true → maskFrom fuel prev' (some '\'') chars = blankFrom s chars
  inDouble : ∀ {base wordStart prev prev' chars}, chars.length ≤ fuel → .dquote ∉ base →
    untrappedFrom ⟨.dquote :: base, .plain, wordStart, false⟩ prev chars = true →
    maskFrom fuel prev' (some '"') chars = blankFrom ⟨.dquote :: base, .plain, wordStart, false⟩ chars

theorem maskFrom_nil (fuel : Nat) (prev quote : Option Char) : maskFrom fuel prev quote [] = [] := by
  cases fuel <;> cases quote <;> rfl

theorem stepPlain (hFrames : .dquote ∉ s.frames) (hMode : s.mode = .plain) (ch : Char) (next : Option Char) :
    step s ch next = stepCommand s ch next := by
  obtain ⟨frames, mode, wordStart, opening⟩ := s
  obtain rfl : mode = .plain := hMode
  cases frames with
  | nil => rfl
  | cons frame frames =>
    cases frame with
    | dquote => exact absurd List.mem_cons_self hFrames
    | substitution => rfl
    | tick => rfl

theorem toggleTick_noQuotes (hFrames : .dquote ∉ frames) : .dquote ∉ (toggleTick frames).1 := by
  unfold toggleTick
  split
  · exact fun hMem => hFrames (List.mem_cons_of_mem _ hMem)
  · intro hMem
    rcases List.mem_cons.mp hMem with hEq | hLater
    · cases hEq
    · exact hFrames hLater

theorem openParenthesis_noQuotes (hFrames : .dquote ∉ s.frames) : .dquote ∉ openParenthesis s := by
  unfold openParenthesis
  split
  · intro hMem
    rcases List.mem_cons.mp hMem with hEq | hLater
    · cases hEq
    · exact hFrames hLater
  · split
    next depth outer hEq =>
      rw [hEq] at hFrames
      intro hMem
      rcases List.mem_cons.mp hMem with hEq | hLater
      · cases hEq
      · exact hFrames (List.mem_cons_of_mem _ hLater)
    next => exact hFrames

theorem closeParenthesis_noQuotes (hFrames : .dquote ∉ frames) :
    .dquote ∉ (closeParenthesis frames).1 := by
  unfold closeParenthesis
  split
  · split
    · exact fun hMem => hFrames (List.mem_cons_of_mem _ hMem)
    · intro hMem
      rcases List.mem_cons.mp hMem with hEq | hLater
      · cases hEq
      · exact hFrames (List.mem_cons_of_mem _ hLater)
  · exact hFrames

theorem head_noQuotes (hFrames : .dquote ∉ frames) : frames.head? ≠ some .dquote :=
  fun hHead => hFrames (List.mem_of_head? hHead)

theorem Follows.top_step (hFollows : Follows fuel) (hLength : (ch :: rest).length ≤ fuel + 1)
    (hAtTop : AtTop s prev prev' (ch :: rest)) (hUntrapped : untrappedFrom s prev (ch :: rest) = true) :
    maskFrom (fuel + 1) prev' none (ch :: rest) = blankFrom s (ch :: rest) := by
  have hShort : rest.length ≤ fuel := Nat.le_of_succ_le_succ hLength
  obtain ⟨hNo, hRest⟩ := untrappedFrom_cons hUntrapped
  obtain ⟨hFrames, hMode⟩ := hAtTop
  rw [trapped, if_neg (by simpa using hFrames)] at hNo
  rw [blankFrom_cons, maskFrom]
  rcases hMode with ⟨hPlain, rfl⟩ | ⟨hEscape, rfl⟩ | ⟨hComment, hLine⟩
  · rw [hPlain] at hNo
    rw [stepPlain hFrames hPlain] at hRest ⊢
    by_cases hComment : ch = '#' ∧ s.wordStart = true
    · obtain ⟨rfl, hWord⟩ := hComment
      have hStep : stepCommand s '#' rest.head? = (.data, ⟨s.frames, .comment, true, false⟩) := by
        rw [stepCommand, if_neg (by decide), if_neg (by decide), if_neg (by decide), if_pos ⟨rfl, hWord⟩]
      have hOpens : opensComment prev' = true := by
        rw [hWord] at hNo
        simpa using hNo
      rw [if_pos ⟨rfl, hOpens⟩, hStep, List.takeWhile_cons_of_pos (by decide), List.dropWhile_cons_of_pos (by decide)]
      rw [hStep] at hRest
      obtain ⟨hBlank, later, hLater⟩ := blankFrom_comment rfl hRest
      have hLine : ∀ c, (rest.dropWhile (· ≠ '\n')).head? = some c → c = '\n' := by
        intro c hHead
        have hNot := List.head?_dropWhile_not (· ≠ '\n') rest
        rw [hHead] at hNot
        simpa using hNot
      have hAtLine : AtTop ⟨s.frames, .comment, true, false⟩ later (some ' ') (rest.dropWhile (· ≠ '\n')) :=
        ⟨hFrames, Or.inr (Or.inr ⟨rfl, hLine⟩)⟩
      have hTop := hFollows.top ((List.length_dropWhile_le _ rest).trans hShort) hAtLine hLater
      rw [hBlank, ← hTop]
      rfl
    · have hKept : ¬ (ch = '#' ∧ opensComment prev' = true) := by
        rintro ⟨rfl, hOpens⟩
        rw [hOpens] at hNo
        exact hComment ⟨rfl, by simpa using hNo⟩
      rw [if_neg hKept]
      by_cases hEscape : ch = '\\'
      · subst hEscape
        rw [if_neg (by decide)]
        exact congrArg ('\\' :: ·) (hFollows.top hShort ⟨hFrames, Or.inr (Or.inl ⟨rfl, rfl⟩)⟩ hRest)
      by_cases hSingle : ch = '\''
      · subst hSingle
        rw [if_pos (Or.inr rfl)]
        exact congrArg ('\'' :: ·) (hFollows.inSingle hShort rfl hFrames hRest)
      by_cases hDouble : ch = '"'
      · subst hDouble
        rw [if_pos (Or.inl rfl)]
        exact congrArg ('"' :: ·) (hFollows.inDouble hShort hFrames hRest)
      rw [if_neg (by rintro (hEq | hEq); exacts [hDouble hEq, hSingle hEq])]
      rw [stepCommand, if_neg hEscape, if_neg hSingle, if_neg hDouble, if_neg hComment] at hRest ⊢
      split_ifs at hRest ⊢ with hTick hOpen hClose hClosing
      · exact congrArg (ch :: ·) (hFollows.top hShort ⟨toggleTick_noQuotes hFrames, Or.inl ⟨rfl, rfl⟩⟩ hRest)
      · exact congrArg (ch :: ·) (hFollows.top hShort ⟨openParenthesis_noQuotes hFrames, Or.inl ⟨rfl, rfl⟩⟩ hRest)
      · exact absurd hClosing.2 (head_noQuotes (closeParenthesis_noQuotes hFrames))
      · exact congrArg (ch :: ·) (hFollows.top hShort ⟨closeParenthesis_noQuotes hFrames, Or.inl ⟨rfl, rfl⟩⟩ hRest)
      · exact congrArg (ch :: ·) (hFollows.top hShort ⟨hFrames, Or.inl ⟨rfl, rfl⟩⟩ hRest)
  · rw [hEscape] at hNo
    have hQuotes : ¬ (ch = '"' ∨ ch = '\'') := by
      simpa [or_comm, and_comm] using hNo
    have hStep : step s ch rest.head? = (.live, ⟨s.frames, .plain, false, false⟩) := by
      have hQuoted : quoted s = false := by
        rw [quoted, beq_eq_false_iff_ne]
        exact head_noQuotes hFrames
      rw [step, hEscape, hQuoted]
      rfl
    rw [if_neg (fun hBoth => absurd hBoth.2 (by decide)), if_neg hQuotes, hStep]
    rw [hStep] at hRest
    exact congrArg (ch :: ·) (hFollows.top hShort ⟨hFrames, Or.inl ⟨rfl, rfl⟩⟩ hRest)
  · obtain rfl := hLine ch rfl
    have hStep : step s '\n' rest.head? = (.live, ⟨s.frames, .plain, true, false⟩) := by
      rw [step, hComment]
      rfl
    rw [if_neg (fun hBoth => absurd hBoth.1 (by decide)), if_neg (by decide), hStep]
    rw [hStep] at hRest
    exact congrArg ('\n' :: ·) (hFollows.top hShort ⟨hFrames, Or.inl ⟨rfl, rfl⟩⟩ hRest)

theorem Follows.inSingle_step (hFollows : Follows fuel) (hLength : (ch :: rest).length ≤ fuel + 1) (hMode : s.mode = .single)
    (hFrames : .dquote ∉ s.frames) (hUntrapped : untrappedFrom s prev (ch :: rest) = true) :
    maskFrom (fuel + 1) prev' (some '\'') (ch :: rest) = blankFrom s (ch :: rest) := by
  have hShort : rest.length ≤ fuel := Nat.le_of_succ_le_succ hLength
  obtain ⟨-, hRest⟩ := untrappedFrom_cons hUntrapped
  rw [blankFrom_cons, maskFrom, if_pos rfl]
  by_cases hQuote : ch = '\''
  · have hStep : step s ch rest.head? = (.delimiter, ⟨s.frames, .plain, false, false⟩) := by
      rw [step, hMode]
      exact if_pos hQuote
    rw [if_pos hQuote, hStep]
    rw [hStep] at hRest
    exact congrArg (ch :: ·) (hFollows.top hShort ⟨hFrames, Or.inl ⟨rfl, rfl⟩⟩ hRest)
  · have hStep : step s ch rest.head? = (.data, s) := by
      rw [step, hMode]
      exact if_neg hQuote
    rw [if_neg hQuote, hStep]
    rw [hStep] at hRest
    exact congrArg (' ' :: ·) (hFollows.inSingle hShort hMode hFrames hRest)

theorem Follows.inDouble_step (hFollows : Follows fuel) (hLength : (ch :: rest).length ≤ fuel + 1) (hBase : .dquote ∉ base)
    (hUntrapped : untrappedFrom ⟨.dquote :: base, .plain, wordStart, false⟩ prev (ch :: rest) = true) :
    maskFrom (fuel + 1) prev' (some '"') (ch :: rest) =
      blankFrom ⟨.dquote :: base, .plain, wordStart, false⟩ (ch :: rest) := by
  have hShort : rest.length ≤ fuel := Nat.le_of_succ_le_succ hLength
  obtain ⟨hNo, hRest⟩ := untrappedFrom_cons hUntrapped
  have hTick : ch ≠ '`' := by
    rw [trapped, if_pos (by simp)] at hNo
    simpa using hNo
  have hStep : step ⟨.dquote :: base, .plain, wordStart, false⟩ ch rest.head? =
      stepQuoted ⟨.dquote :: base, .plain, wordStart, false⟩ base ch rest.head? := rfl
  rw [blankFrom_cons, maskFrom, if_neg (by decide)]
  rw [stepQuoted, if_neg Bool.false_ne_true] at hStep
  by_cases hDouble : ch = '"'
  · subst hDouble
    rw [if_pos rfl] at hStep ⊢
    rw [hStep] at hRest ⊢
    exact congrArg ('"' :: ·) (hFollows.top hShort ⟨hBase, Or.inl ⟨rfl, rfl⟩⟩ hRest)
  rw [if_neg hDouble] at hStep ⊢
  by_cases hEscape : ch = '\\'
  · subst hEscape
    rw [if_pos rfl] at hStep
    rw [hStep] at hRest ⊢
    cases rest with
    | nil =>
      rw [if_neg (fun hBoth => hBoth.2 rfl), if_neg (by decide), if_neg (by decide), maskFrom_nil]
      rfl
    | cons next rest =>
      rw [if_pos ⟨rfl, List.cons_ne_nil _ _⟩, List.tail_cons]
      obtain ⟨-, hLater⟩ := untrappedFrom_cons hRest
      have hNext : rest.length ≤ fuel := (Nat.le_succ _).trans hShort
      exact congrArg (' ' :: ' ' :: ·) (hFollows.inDouble hNext hBase hLater)
  rw [if_neg hEscape] at hStep
  rw [if_neg (fun hBoth => hEscape hBoth.1)]
  by_cases hOpens : ch = '$' ∧ rest.head? = some '('
  · obtain ⟨rfl, hHead⟩ := hOpens
    obtain ⟨rest, rfl⟩ : ∃ tail, rest = '(' :: tail := by
      cases rest with
      | nil => cases hHead
      | cons next tail => exact ⟨tail, by rw [Option.some.inj hHead]⟩
    rw [if_pos (show opensSubstitution '$' ('(' :: rest).head? = true from rfl)] at hStep
    rw [if_pos ⟨rfl, rfl⟩, substitution_other (by decide) (by decide), substitution_open, hStep]
    rw [hStep] at hRest
    obtain ⟨-, hInner⟩ := untrappedFrom_cons hRest
    have hNested : Nested [.substitution 1] :=
      ⟨by simp, fun depth hMem => by
        obtain rfl := Frame.substitution.inj (List.mem_singleton.mp hMem)
        exact Nat.one_pos, ⟨1, rfl⟩⟩
    obtain ⟨hBlank, later, hLater⟩ := copiedUpTo_nested hNested (Or.inl rfl) hInner
    have hLe : (substitution 1 rest).2.length ≤ fuel := by
      have hAppend := congrArg List.length (substitution_append rest 1)
      rw [List.length_append] at hAppend
      rw [List.length_cons] at hShort
      omega
    have hRest' : maskFrom fuel ('$' :: '(' :: (substitution 1 rest).1).getLast? (some '"') (substitution 1 rest).2 =
        blankFrom (between base) (substitution 1 rest).2 :=
      hFollows.inDouble hLe hBase hLater
    have hCopied : blankFrom ⟨.dquote :: base, .plain, wordStart, true⟩ ('(' :: rest) =
        '(' :: ((substitution 1 rest).1 ++ blankFrom (between base) (substitution 1 rest).2) :=
      congrArg ('(' :: ·) hBlank
    rw [hCopied]
    exact congrArg (fun tail => '$' :: '(' :: ((substitution 1 rest).1 ++ tail)) hRest'
  · have hNone : opensSubstitution ch rest.head? = false := by
      rw [opensSubstitution]
      simpa using hOpens
    rw [hNone, if_neg Bool.false_ne_true, if_neg hTick] at hStep
    rw [if_neg hOpens, if_neg hTick, hStep]
    rw [hStep] at hRest
    exact congrArg (' ' :: ·) (hFollows.inDouble hShort hBase hRest)

theorem follows (fuel : Nat) : Follows fuel := by
  induction fuel with
  | zero =>
    constructor
    · intro s prev prev' chars hLength _ _
      rw [List.length_eq_zero_iff.mp (Nat.le_zero.mp hLength)]
      rfl
    · intro s prev prev' chars hLength _ _ _
      rw [List.length_eq_zero_iff.mp (Nat.le_zero.mp hLength)]
      rfl
    · intro base wordStart prev prev' chars hLength _ _
      rw [List.length_eq_zero_iff.mp (Nat.le_zero.mp hLength)]
      rfl
  | succ fuel ih =>
    constructor
    · intro s prev prev' chars hLength hAtTop hUntrapped
      cases chars with
      | nil => rfl
      | cons ch rest => exact ih.top_step hLength hAtTop hUntrapped
    · intro s prev prev' chars hLength hMode hFrames hUntrapped
      cases chars with
      | nil => rfl
      | cons ch rest => exact ih.inSingle_step hLength hMode hFrames hUntrapped
    · intro base wordStart prev prev' chars hLength hBase hUntrapped
      cases chars with
      | nil => rfl
      | cons ch rest => exact ih.inDouble_step hLength hBase hUntrapped

theorem rolesFrom_length (s : State) (chars : Text) : (rolesFrom s chars).length = chars.length := by
  induction chars generalizing s with
  | nil => rfl
  | cons ch rest ih => exact congrArg (· + 1) (ih _)

theorem maskQuotedSpans_eq {command : Text} (hUntrapped : untrapped command = true) :
    maskQuotedSpans command = List.zipWith paint (roles command) command :=
  (follows command.length).top (Nat.le_refl _) ⟨List.not_mem_nil, Or.inl ⟨rfl, rfl⟩⟩ hUntrapped

theorem zipWith_paint_congr {roles : List Role} {chars others : Text} (hLength : roles.length = chars.length)
    (hLength' : roles.length = others.length)
    (hSame : ∀ i : Nat, roles[i]? ≠ some Role.data → chars[i]? = others[i]?) :
    List.zipWith paint roles chars = List.zipWith paint roles others := by
  induction roles generalizing chars others with
  | nil => rfl
  | cons role roles ih =>
    cases chars with
    | nil => cases hLength
    | cons ch chars =>
      cases others with
      | nil => cases hLength'
      | cons other others =>
        have hRest := ih (Nat.succ.inj hLength) (Nat.succ.inj hLength') fun i hRole => hSame (i + 1) hRole
        rw [List.zipWith_cons_cons, List.zipWith_cons_cons, hRest]
        by_cases hData : role = .data
        · rw [hData]
          rfl
        · obtain rfl : ch = other := Option.some.inj (hSame 0 fun hEq => hData (Option.some.inj hEq))
          rfl

/-- Nothing moves, what is run stands as it was, quoted data and comments are blanked, and they alone do not decide about
a discard. -/
structure FollowsShell (command : Text) : Prop where
  length : (maskQuotedSpans command).length = command.length
  live : ∀ i : Nat, (roles command)[i]? = some Role.live → (maskQuotedSpans command)[i]? = command[i]?
  data : ∀ i : Nat, (roles command)[i]? = some Role.data → (maskQuotedSpans command)[i]? = some ' '
  discards : ∀ isWord other, untrapped other = true → roles other = roles command →
    (∀ i : Nat, (roles command)[i]? ≠ some Role.data → command[i]? = other[i]?) →
    discardPlaces isWord (maskQuotedSpans other) = discardPlaces isWord (maskQuotedSpans command)

theorem maskQuotedSpans_followsShell (command : Text) (hUntrapped : untrapped command = true) :
    FollowsShell command := by
  have hMask := maskQuotedSpans_eq hUntrapped
  have hRoles : (roles command).length = command.length := rolesFrom_length _ _
  constructor
  · exact (maskQuotedSpans_masks command).length_eq.symm
  · intro i hRole
    rw [hMask, List.getElem?_zipWith, hRole]
    cases command[i]? <;> rfl
  · intro i hRole
    obtain ⟨hLt, -⟩ := List.getElem?_eq_some_iff.mp hRole
    have hChar : command[i]? = some (command.get ⟨i, hRoles ▸ hLt⟩) := List.getElem?_eq_getElem _
    rw [hMask, List.getElem?_zipWith, hRole, hChar]
    rfl
  · intro isWord other hOther hSameRoles hSame
    have hLength : (roles command).length = other.length := by
      rw [← hSameRoles]
      exact rolesFrom_length _ _
    rw [hMask, maskQuotedSpans_eq hOther, hSameRoles, zipWith_paint_congr hRoles hLength hSame]

theorem maskQuotedSpans_followsShell_substitution :
    FollowsShell "echo \"a $(git reset --hard)\" 'it' # b".toList :=
  maskQuotedSpans_followsShell _ (by decide +kernel)

end Scanning

theorem escaped_quote_hides : (roles "echo \\\" ; git reset --hard".toList)[10]? = some Role.live ∧
    "echo \\\" ; git reset --hard".toList[10]? = some 'g' ∧
    (maskQuotedSpans "echo \\\" ; git reset --hard".toList)[10]? = some ' ' ∧
    findDestructiveGitDiscardCommands asciiWord "echo \\\" ; git reset --hard".toList = [] := by
  decide +kernel

end Shell

end PrimeAgent.Tools
