import Montage.Proofs.Assignments
import Montage.Proofs.Code

/-!
# The lines that a script runs

A script is run from its first line to its last, except that the body of a function is passed over
where the function is defined, and that a condition decides between two blocks. What a condition
comes out as depends on files that are not looked at here, so it is left open. What a line binds and
what it reads is told by its tokens.
-/

namespace Montage.Script

/-! ## Control -/

/-- What a run remembers of the lines it has passed. -/
structure Control where
  passed : ℕ := 0
  /-- Lines deeper than this are passed over. -/
  skip : Option ℕ := none
  /-- Whether the last condition at a depth held. -/
  held : ℕ → Bool := fun _ => false

namespace Control

/-- Whether a line is passed over. -/
def skips (c : Control) (l : CodeLine) : Bool :=
  c.skip.any (· < l.indent)

/-- What is remembered behind a line. A condition comes out as the answer for its line says. -/
def next (answers : ℕ → Bool) (c : Control) (l : CodeLine) : Control :=
  if c.skips l then { c with passed := c.passed + 1 }
  else if l.tokens.head? = some (.word "def") then ⟨c.passed + 1, some l.indent, c.held⟩
  else if l.tokens.head? = some (.word "if") then
    ⟨c.passed + 1, if answers c.passed then none else some l.indent,
      Function.update c.held l.indent (answers c.passed)⟩
  else if l.tokens.head? = some (.word "else") then
    ⟨c.passed + 1, if c.held l.indent then some l.indent else none, c.held⟩
  else ⟨c.passed + 1, none, c.held⟩

end Control

/-- The lines that are run. -/
def executed (answers : ℕ → Bool) : Control → List CodeLine → List CodeLine
  | _, [] => []
  | c, l :: ls =>
    if c.skips l then executed answers (c.next answers l) ls
    else l :: executed answers (c.next answers l) ls

section Executed

variable (answers : ℕ → Bool) (c : Control)

/-- Lines that are not indented are always run. -/
theorem Control.skips_of_indent {l : CodeLine} (h : l.indent = 0) : c.skips l = false := by
  simp [Control.skips, h]

/-- Of two parts, the second is run from where the first one leads to. -/
theorem executed_append (ls ms : List CodeLine) :
    ∃ c', executed answers c (ls ++ ms) = executed answers c ls ++ executed answers c' ms := by
  induction ls generalizing c with
  | nil => exact ⟨c, rfl⟩
  | cons l ls ih =>
    obtain ⟨c', hc'⟩ := ih (c.next answers l)
    refine ⟨c', ?_⟩
    rw [List.cons_append, executed, executed, hc']
    split <;> rfl

/-- The lines that are run are some of the lines, in their order. -/
theorem executed_sublist (ls : List CodeLine) : (executed answers c ls).Sublist ls := by
  induction ls generalizing c with
  | nil => exact List.Sublist.slnil
  | cons l ls ih =>
    rw [executed]
    split
    · exact (ih _).cons l
    · exact (ih _).cons_cons l

end Executed

/-! ## The lines of statements -/

/-- Code of which exactly the lines without indentation are run, whatever stands before and behind
it. -/
def Outlined (answers : ℕ → Bool) (code : List CodeLine) : Prop :=
  ∀ c rest, ∃ c', executed answers c (code ++ rest) =
    (code.filter fun l => l.indent = 0) ++ executed answers c' rest

namespace Outlined

variable {answers : ℕ → Bool}

/-- Two parts that are outlined are outlined together. -/
theorem append {ls ms : List CodeLine} (hl : Outlined answers ls) (hm : Outlined answers ms) :
    Outlined answers (ls ++ ms) := by
  intro c rest
  obtain ⟨c₁, h₁⟩ := hl c (ms ++ rest)
  obtain ⟨c₂, h₂⟩ := hm c₁ rest
  exact ⟨c₂, by rw [List.append_assoc, h₁, h₂, List.filter_append, List.append_assoc]⟩

/-- Lines without indentation are all run. -/
theorem flat {ls : List CodeLine} (h : ∀ l ∈ ls, l.indent = 0) : Outlined answers ls := by
  induction ls with
  | nil => exact fun c rest => ⟨c, rfl⟩
  | cons l ls ih =>
    obtain ⟨hl, hls⟩ := List.forall_mem_cons.mp h
    intro c rest
    obtain ⟨c', hc'⟩ := ih hls (c.next answers l) rest
    refine ⟨c', ?_⟩
    rw [List.cons_append, executed, c.skips_of_indent hl, hc',
      List.filter_cons_of_pos (by simpa using hl)]
    rfl

/-- Of a function, only the first line is run. Its body is passed over because nothing but the depth
of the first line is remembered. -/
theorem function (name : String) (parameters : List String) {body : List CodeLine}
    (hbody : ∀ l ∈ body, 0 < l.indent) : Outlined answers (functionCode name parameters body) := by
  intro c rest
  have hskipped (n : ℕ) (held : ℕ → Bool) :
      ∃ c', executed answers ⟨n, some 0, held⟩ (body ++ rest) = executed answers c' rest := by
    induction body generalizing n with
    | nil => exact ⟨_, rfl⟩
    | cons l body ih =>
      obtain ⟨hl, hbody⟩ := List.forall_mem_cons.mp hbody
      have hskips : Control.skips ⟨n, some 0, held⟩ l = true := by simpa [Control.skips] using hl
      obtain ⟨c', hc'⟩ := ih hbody (n + 1)
      refine ⟨c', ?_⟩
      rw [List.cons_append, executed, if_pos hskips, Control.next, if_pos hskips, hc']
  have hnone : (body.filter fun l => l.indent = 0) = [] :=
    List.filter_eq_nil_iff.mpr fun l hl => by simpa using (hbody l hl).ne'
  have hskips := c.skips_of_indent (l := ⟨0, definition name parameters⟩) rfl
  have hdef : (definition name parameters).head? = some (.word "def") := rfl
  obtain ⟨c', hc'⟩ := hskipped (c.passed + 1) c.held
  refine ⟨c', ?_⟩
  rw [functionCode, List.cons_append, executed, hskips, Control.next, hskips,
    if_neg Bool.false_ne_true, if_neg Bool.false_ne_true, if_pos hdef, hc',
    List.filter_cons_of_pos rfl, hnone]
  rfl

end Outlined

/-- Whether a statement is a choice. -/
def Statement.isChoice : Statement LetterEffect → Bool
  | choose _ _ _ => true
  | _ => false

/-- The lines of a statement that can be run: both branches of a choice, and no body of a
function. -/
def Statement.runnable (s : Statement LetterEffect) : List CodeLine :=
  if s.isChoice then s.code else s.code.filter fun l => l.indent = 0

/-- Of the helpers of letters, the imports and the first lines of functions are run. -/
theorem Statement.runnable_letterHelpers : letterHelpers.runnable =
    letterHelpersCode.take 3 ++ [⟨0, definition "find_letters" ["mask"]⟩,
      ⟨0, definition "move_letters" ["letters", "funcpos", "original_clip"]⟩] :=
  rfl

/-- Of the motion of letters, the first line of its function is run. -/
theorem Statement.runnable_letterMotion (effect : LetterEffect) :
    (letterMotion effect).runnable =
      [⟨0, definition effect.name ["screenpos", "i", "nletters"]⟩] := by
  cases effect <;> rfl

/-- The code of every statement but a choice is outlined. -/
theorem Statement.outlined_code (answers : ℕ → Bool) {s : Statement LetterEffect}
    (h : s.isChoice = false) : Outlined answers s.code := by
  cases s with
  | choose => simp [isChoice] at h
  | letterHelpers =>
    refine (Outlined.append (.flat ?_) (.function _ _ ?_)).append (.function _ _ ?_) <;>
      decide +kernel
  | letterMotion effect => cases effect <;> exact .function _ _ (by decide +kernel)
  | _ => exact .flat (by simp [code])

/-- A statement that is no choice runs the same lines, whatever conditions come out as. -/
theorem Statement.executed_code (answers : ℕ → Bool) (c : Control) {s : Statement LetterEffect}
    (h : s.isChoice = false) : executed answers c s.code = s.runnable := by
  obtain ⟨c', hc'⟩ := s.outlined_code answers h c []
  rw [runnable, h, if_neg Bool.false_ne_true]
  simpa [executed] using hc'

/-- A statement runs no other lines than those that can be run. -/
theorem Statement.executed_code_subset (answers : ℕ → Bool) (c : Control)
    (s : Statement LetterEffect) : executed answers c s.code ⊆ s.runnable := by
  cases hchoice : s.isChoice with
  | false =>
    rw [s.executed_code answers c hchoice]
    exact List.Subset.refl _
  | true =>
    rw [runnable, if_pos hchoice]
    exact (executed_sublist answers c _).subset

/-- Every line that is run is a line of some statement that can be run. -/
theorem exists_runnable_of_mem_executed {answers : ℕ → Bool} {c : Control}
    {ss : List (Statement LetterEffect)} {l : CodeLine}
    (h : l ∈ executed answers c (ss.flatMap Statement.code)) : ∃ s ∈ ss, l ∈ s.runnable := by
  induction ss generalizing c with
  | nil => simp [executed] at h
  | cons s ss ih =>
    obtain ⟨c', hc'⟩ := executed_append answers c s.code (ss.flatMap Statement.code)
    rw [List.flatMap_cons, hc'] at h
    rcases List.mem_append.mp h with h | h
    · exact ⟨s, List.mem_cons_self, s.executed_code_subset answers c h⟩
    · obtain ⟨t, ht, hl⟩ := ih h
      exact ⟨t, List.mem_cons_of_mem s ht, hl⟩

/-- The lines of a statement that is no choice are run, wherever it stands. -/
theorem runnable_subset_executed (answers : ℕ → Bool) (c : Control)
    {ss : List (Statement LetterEffect)} {s : Statement LetterEffect} (hs : s ∈ ss)
    (h : s.isChoice = false) : s.runnable ⊆ executed answers c (ss.flatMap Statement.code) := by
  induction ss generalizing c with
  | nil => cases hs
  | cons t ss ih =>
    obtain ⟨c', hc'⟩ := executed_append answers c t.code (ss.flatMap Statement.code)
    rw [List.flatMap_cons, hc']
    rcases List.mem_cons.mp hs with rfl | hs
    · rw [s.executed_code answers c h]
      exact List.subset_append_left _ _
    · exact List.subset_append_of_subset_right _ (ih c' hs)

/-! ## Names in lines -/

/-- The name that a token is. -/
def Token.word? : Token → Option String
  | word name => some name
  | _ => none

/-- All names and words of the language. -/
def words (ts : List Token) : List String :=
  ts.filterMap Token.word?

/-- The names that are bound when a line is run. -/
def CodeLine.binds (l : CodeLine) : List String :=
  match l.tokens with
  | .word name :: .mark '=' :: _ => [name]
  | .word kind :: .word name :: rest =>
    if kind = "def" then [name]
    else if kind = "import" then (words (.word name :: rest)).getLast?.toList
    else if kind = "from" then words (rest.dropWhile (· ≠ .word "import")).tail
    else []
  | _ => []

/-- The names in front of certain tokens, unless they are attributes of something. -/
def names (test : Option Token → Bool) : Bool → List Token → List String
  | _, [] => []
  | dotted, .word name :: rest =>
    if !dotted && test rest.head? then name :: names test false rest else names test false rest
  | _, .mark c :: rest => names test (c = '.') rest
  | _, _ :: rest => names test false rest

/-- The tokens that are evaluated when a line is run: those of an import or of the first line of a
function are not, and neither is the body of a function without a name. -/
def CodeLine.evaluated (l : CodeLine) : List Token :=
  if l.tokens.head? ∈ [some (.word "import"), some (.word "from"), some (.word "def")] ∨
      l.tokens[2]? = some (.word "lambda") then [] else l.tokens

/-- Whether a name is read, from what follows it: it is neither assigned nor names an argument. -/
def isRead (next : Option Token) : Bool :=
  next ≠ some (.mark '=')

/-- Whether a name is called, from what follows it. -/
def isCalled (next : Option Token) : Bool :=
  next = some (.mark '(')

/-- The names that are read and are no words of the language. -/
def readNames (ts : List Token) : List String :=
  (names isRead false ts).filter (· ∉ keywords)

/-- The names that are read when a line is run. -/
def CodeLine.reads (l : CodeLine) : List String :=
  readNames l.evaluated

/-- The functions that are called when a line is run. -/
def CodeLine.calls (l : CodeLine) : List String :=
  names isCalled false l.evaluated

/-- A name at the end is read and not called. -/
@[simp] theorem isRead_none : isRead none = true ∧ isCalled none = false :=
  ⟨rfl, rfl⟩

/-- A name in front of a word is read and not called. -/
@[simp] theorem isRead_word (name : String) :
    isRead (some (.word name)) = true ∧ isCalled (some (.word name)) = false :=
  ⟨rfl, rfl⟩

/-- A name in front of a mark is read or called as the mark says. -/
@[simp] theorem isRead_mark (c : Char) :
    isRead (some (.mark c)) = decide (c ≠ '=') ∧ isCalled (some (.mark c)) = decide (c = '(') := by
  simp [isRead, isCalled]

section Names

variable (test : Option Token → Bool) (dotted : Bool)

/-- There are no names in nothing. -/
@[simp] theorem names_nil : names test dotted [] = [] :=
  rfl

/-- A word is one of the names if it is no attribute and stands in front of the right token. -/
@[simp] theorem names_word (name : String) (rest : List Token) :
    names test dotted (.word name :: rest) =
      if !dotted && test rest.head? then name :: names test false rest
      else names test false rest :=
  rfl

/-- A mark is no name. -/
@[simp] theorem names_mark (c : Char) (rest : List Token) :
    names test dotted (.mark c :: rest) = names test (c = '.') rest :=
  rfl

/-- A number is no name. -/
@[simp] theorem names_number (digits : String) (rest : List Token) :
    names test dotted (.number digits :: rest) = names test false rest :=
  rfl

/-- A literal is no name. -/
@[simp] theorem names_literal (s : String) (rest : List Token) :
    names test dotted (literal s :: rest) = names test false rest :=
  rfl

/-- The names up to a mark do not depend on what stands behind it. -/
theorem names_append_mark (ts : List Token) (c : Char) (rest : List Token) :
    names test dotted (ts ++ .mark c :: rest) =
      names test dotted (ts ++ [.mark c]) ++ names test (c = '.') rest := by
  induction ts generalizing dotted with
  | nil => simp
  | cons t ts ih =>
    cases t with
    | word name =>
      have hhead : (ts ++ Token.mark c :: rest).head? = (ts ++ [Token.mark c]).head? := by
        cases ts <;> rfl
      rw [List.cons_append, List.cons_append, names_word, names_word, hhead, ih]
      split <;> rfl
    | number digits => exact ih false
    | quoted body => exact ih false
    | mark d => exact ih _

/-- All names are words. -/
theorem names_subset (ts : List Token) : names test dotted ts ⊆ words ts := by
  induction ts generalizing dotted with
  | nil => exact List.nil_subset _
  | cons t ts ih =>
    cases t with
    | word name =>
      rw [names_word]
      split
      · exact List.cons_subset_cons name (ih false)
      · exact List.subset_cons_of_subset name (ih false)
    | number digits => exact ih false
    | quoted body => exact ih false
    | mark d => exact ih _

/-- The only word in a number is the name of the function that makes it. -/
theorem words_numberTokens (x : Float) : words (numberTokens x) ⊆ ["float"] := by
  rcases numberTokens_cases x with hcall | hfigures
  · have hcalls : ∀ ts ∈ callTokens, words ts ⊆ ["float"] := by decide +kernel
    exact hcalls _ hcall
  · intro name hname
    obtain ⟨t, ht, hword⟩ := List.mem_filterMap.mp hname
    cases t with
    | word w => simpa [Token.isFigure] using hfigures _ ht
    | number | quoted | mark => simp [Token.word?] at hword

/-- The names in a number that stands in front of a mark. -/
def numberNames (x : Float) (c : Char) : List String :=
  names test dotted (numberTokens x ++ [.mark c])

/-- A number brings in its own names. -/
@[simp] theorem names_numberTokens (x : Float) (c : Char) (rest : List Token) :
    names test dotted (numberTokens x ++ .mark c :: rest) =
      numberNames test dotted x c ++ names test (c = '.') rest :=
  names_append_mark test dotted _ c rest

/-- The only name in a number is that of the function that makes it. -/
@[simp] theorem mem_numberNames (x : Float) (c : Char) (name : String) :
    name ∈ numberNames test dotted x c ↔
      name = "float" ∧ numberNames test dotted x c ≠ [] := by
  have hfloat : ∀ other ∈ numberNames test dotted x c, other = "float" := by
    intro other hother
    have hword := names_subset test dotted _ hother
    simp only [words, List.filterMap_append, List.mem_append] at hword
    rcases hword with hword | hword
    · exact List.mem_singleton.mp (words_numberTokens x hword)
    · simp [Token.word?] at hword
  constructor
  · intro hname
    exact ⟨hfloat name hname, List.ne_nil_of_mem hname⟩
  · rintro ⟨rfl, hne⟩
    obtain ⟨other, hother⟩ := List.exists_mem_of_ne_nil _ hne
    exact hfloat other hother ▸ hother

/-- There are no names in a point. -/
@[simp] theorem names_pointTokens (p : Point) (rest : List Token) :
    names test dotted (pointTokens p ++ rest) = names test false rest := by
  have hcoordinate (x : Coordinate) (c : Char) (ts : List Token) (dotted : Bool) :
      names test dotted (coordinateTokens x ++ .mark c :: ts) = names test (c = '.') ts := by
    cases x with
    | center => rfl
    | pixels i =>
      rw [coordinateTokens, intTokens]
      split <;> rfl
  simp [pointTokens, hcoordinate]

/-- There are no names in a size. -/
@[simp] theorem names_sizeTokens (s : PixelSize) (rest : List Token) :
    names test dotted (sizeTokens s ++ rest) = names test false rest := by
  simp [sizeTokens]

variable {test} in
/-- The names in a list that ends with a bracket are those of its members. -/
theorem forall_names_commaTokens {α : Type} {g : α → List Token} {xs : List α} {P : String → Prop}
    (hg : ∀ a ∈ xs, ∀ c ∈ [',', ']'], ∀ rest, (∀ name ∈ names test false rest, P name) →
      ∀ name ∈ names test false (g a ++ .mark c :: rest), P name)
    {rest : List Token} (hrest : ∀ name ∈ names test false rest, P name) :
    ∀ name ∈ names test false (commaTokens (xs.map g) ++ .mark ']' :: rest), P name := by
  induction xs with
  | nil => exact hrest
  | cons a xs ih =>
    obtain ⟨ha, hxs⟩ := List.forall_mem_cons.mp hg
    cases xs with
    | nil =>
      have hone : commaTokens ([a].map g) = g a := by simp [commaTokens, List.intercalate]
      rw [hone]
      exact ha ']' (by simp) rest hrest
    | cons b xs =>
      rw [List.map_cons, List.map_cons, commaTokens_cons_cons, List.append_assoc, List.cons_append]
      exact ha ',' (by simp) _ (ih hxs)

end Names

end Montage.Script
