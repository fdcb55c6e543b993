import Mathlib.Data.List.Basic
import Montage.Proofs.Names
import Montage.Proofs.Numerals
import Montage.Proofs.Written

/-!
# The lines of a script

A script is one text, and its lines are what stands between the line feeds. The writer ends every
line of a statement with a line feed, so the lines of the script are those of its statements as long
as no line has a line feed inside. None has: numbers and names are made of characters that can be
printed, and literals of texts escape all others.
-/

namespace Montage.Script

/-! ## Texts on one line -/

/-- Whether characters can be printed: none of them is a control character. -/
def isPrintable (cs : List Char) : Bool :=
  cs.all fun c => !isControl c

/-- Characters can be printed if none of them is a control character. -/
theorem isPrintable_iff (cs : List Char) :
    isPrintable cs = true ↔ ∀ c ∈ cs, isControl c = false := by
  simp [isPrintable]

/-- A text without control characters, line feeds among them. -/
def Plain (s : String) : Prop :=
  ∀ c ∈ s.toList, isControl c = false

-- Quantifying over all characters would be decided by running through all of them.
instance (s : String) : Decidable (Plain s) :=
  decidable_of_iff (isPrintable s.toList = true) (isPrintable_iff s.toList)

/-- Texts one after the other are plain if both are. -/
@[simp] theorem plain_append (s t : String) : Plain (s ++ t) ↔ Plain s ∧ Plain t := by
  simp only [Plain, String.toList_append, List.forall_mem_append]

/-- A text is plain if its characters are. -/
@[simp] theorem plain_ofList (cs : List Char) :
    Plain (String.ofList cs) ↔ ∀ c ∈ cs, isControl c = false := by
  rw [Plain, String.toList_ofList]

/-- The characters from the blank to the tilde are no control characters. -/
theorem isControl_of_printed {c : Char} (hlow : 32 ≤ c.toNat) (hhigh : c.toNat < 127) :
    isControl c = false := by
  simp only [isControl, Bool.or_eq_false_iff, Bool.and_eq_false_iff, decide_eq_false_iff_not]
  omega

/-- The characters of names are letters, digits and the underscore. -/
theorem ContinuesName.toNat {c : Char} (h : ContinuesName c) :
    48 ≤ c.toNat ∧ c.toNat < 127 ∧ c.toNat ≠ 58 := by
  change (((65 ≤ c.toNat ∧ c.toNat ≤ 90) ∨ (97 ≤ c.toNat ∧ c.toNat ≤ 122) ∨ c = '_') ∨
    (48 ≤ c.toNat ∧ c.toNat ≤ 57)) at h
  rcases h with (h | h | rfl) | h
  · omega
  · omega
  · decide
  · omega

/-- A digit is no control character. -/
theorem isControl_of_isDigit {c : Char} (h : c.isDigit = true) : isControl c = false := by
  simp only [Char.isDigit, Bool.and_eq_true, decide_eq_true_eq] at h
  change 48 ≤ c.toNat ∧ c.toNat ≤ 57 at h
  exact isControl_of_printed (by omega) (by omega)

/-- Names are plain. -/
theorem IsName.plain {s : String} (h : IsName s) : Plain s := by
  intro c hc
  obtain ⟨hlow, hhigh, -⟩ := (h.continuesName c hc).toNat
  exact isControl_of_printed (by omega) hhigh

/-! ## Literals -/

/-- A hexadecimal digit is no control character. -/
theorem isControl_hexDigit {n : ℕ} (h : n < 16) : isControl (Decimal.hexDigit n) = false := by
  revert n
  decide

/-- What a character is written as has no control characters. -/
theorem isControl_of_mem_escape {c d : Char} (h : d ∈ escape c) : isControl d = false := by
  unfold escape at h
  split_ifs at h with _ _ _ _ _ hcontrol
  · exact (isPrintable_iff _).mp (by decide) d h
  · exact (isPrintable_iff _).mp (by decide) d h
  · exact (isPrintable_iff _).mp (by decide) d h
  · exact (isPrintable_iff _).mp (by decide) d h
  · exact (isPrintable_iff _).mp (by decide) d h
  · have hhigh : c.toNat / 16 < 16 := by
      simp only [isControl, Bool.or_eq_true, Bool.and_eq_true, decide_eq_true_eq] at hcontrol
      omega
    have hlow : c.toNat % 16 < 16 := Nat.mod_lt _ (by decide)
    simp only [List.mem_cons, List.not_mem_nil, or_false] at h
    rcases h with rfl | rfl | rfl | rfl
    · decide
    · decide
    · exact isControl_hexDigit hhigh
    · exact isControl_hexDigit hlow
  · rw [List.mem_singleton.mp h]
    exact Bool.eq_false_iff.mpr hcontrol

/-- Whatever a text contains, its literal has no control characters. -/
@[simp] theorem plain_textLiteral (s : String) : Plain (textLiteral s) := by
  have hquote : isControl '"' = false := by decide
  simp only [textLiteral, plain_ofList, List.forall_mem_cons, List.forall_mem_append, hquote,
    true_and, List.not_mem_nil, IsEmpty.forall_iff, implies_true, and_true, List.mem_flatMap]
  rintro d ⟨c, -, hd⟩
  exact isControl_of_mem_escape hd

/-- The digits of a number are plain. -/
@[simp] theorem plain_natText (n : ℕ) : Plain (Decimal.natText n) := by
  rw [Decimal.natText, plain_ofList]
  exact fun c hc => isControl_of_isDigit (Decimal.isDigit_of_mem_digits hc)

/-- A sign in front of digits is plain. -/
@[simp] theorem plain_intText (i : ℤ) : Plain (Decimal.intText i) := by
  have hsign : Plain "-" := by decide
  unfold Decimal.intText
  split <;> simp [hsign]

/-- A decimal that is written with all its places is made of digits and a point. -/
theorem mem_positional {s : Decimal.Scientific} {c : Char} (hc : c ∈ (s.positional "").toList) :
    c.isDigit = true ∨ c = '.' := by
  have hdigits {c : Char} (hc : c ∈ Decimal.digits s.coefficient) : c.isDigit = true :=
    Decimal.isDigit_of_mem_digits hc
  have hzeros {k : ℕ} {c : Char} (hc : c ∈ List.replicate k '0') : c.isDigit = true :=
    Json.isDigit_of_mem_replicate hc
  have hzero : '0'.isDigit = true := by decide
  unfold Decimal.Scientific.positional at hc
  dsimp only at hc
  split at hc
  · rw [String.toList_append, String.toList_ofList] at hc
    simp only [String.toList_empty, List.append_nil, List.mem_append] at hc
    exact Or.inl (hc.elim hdigits hzeros)
  split at hc
  · simp only [String.toList_ofList, List.mem_append, List.mem_cons] at hc
    rcases hc with hc | rfl | hc
    · exact Or.inl (hdigits (List.mem_of_mem_take hc))
    · exact Or.inr rfl
    · exact Or.inl (hdigits (List.mem_of_mem_drop hc))
  · simp only [String.toList_ofList, List.mem_cons, List.mem_append] at hc
    rcases hc with rfl | rfl | hc | hc
    · exact Or.inl hzero
    · exact Or.inr rfl
    · exact Or.inl (hzeros hc)
    · exact Or.inl (hdigits hc)

/-- Whole numbers are made of digits behind a sign, if there is one. -/
theorem mem_intText {i : ℤ} {c : Char} (hc : c ∈ (Decimal.intText i).toList) :
    c.isDigit = true ∨ c = '-' := by
  have hdigits : ∀ c ∈ (Decimal.natText i.natAbs).toList, c.isDigit = true := by
    rw [Decimal.natText, String.toList_ofList]
    exact fun c hc => Decimal.isDigit_of_mem_digits hc
  unfold Decimal.intText at hc
  split at hc
  · rw [String.toList_append, List.mem_append] at hc
    exact hc.symm.imp (hdigits c) fun hsign => by simpa using hsign
  · exact Or.inl (hdigits c hc)

/-- The texts of numbers that are not finite: calls of a function of the language. -/
def numberCalls : List String :=
  ["float(\"nan\")", "float(\"inf\")", "-float(\"inf\")"]

/-- Every other number is made of digits, a sign and a point. -/
theorem numberLiteral_cases (x : Float) :
    numberLiteral x ∈ numberCalls ∨
      ∀ c ∈ (numberLiteral x).toList, c.isDigit = true ∨ c = '.' ∨ c = '-' := by
  have hplain : ∀ c ∈ (Decimal.Layout.plain.text x).toList,
      c.isDigit = true ∨ c = '.' ∨ c = '-' := by
    intro c hc
    have hbody : ∀ c ∈ ((Decimal.shortest Decimal.Layout.plain.tie x).positional "").toList,
        c.isDigit = true ∨ c = '.' ∨ c = '-' := fun c hc => (mem_positional hc).imp_right Or.inl
    unfold Decimal.Layout.text at hc
    split at hc
    · rw [String.toList_append, List.mem_append] at hc
      rcases hc with hc | hc
      · exact Or.inr (Or.inr (by simpa using hc))
      · exact hbody c hc
    · exact hbody c hc
  unfold numberLiteral
  split
  · exact Or.inl (by decide)
  split
  · exact Or.inl (by split <;> decide)
  refine Or.inr ?_
  split
  · split
    · exact fun c hc => (mem_intText hc).imp_right Or.inr
    · exact hplain
  · exact hplain

/-- Literals of doubles are plain. -/
@[simp] theorem plain_numberLiteral (x : Float) : Plain (numberLiteral x) := by
  rcases numberLiteral_cases x with hcall | hchars
  · have hcalls : ∀ text ∈ numberCalls, Plain text := by decide
    exact hcalls _ hcall
  · intro c hc
    rcases hchars c hc with hdigit | rfl | rfl
    · exact isControl_of_isDigit hdigit
    · decide
    · decide

/-- Literals of points are plain. -/
@[simp] theorem plain_pointLiteral (p : Point) : Plain (pointLiteral p) := by
  have hcoordinate (x : Coordinate) : Plain (coordinateLiteral x) := by
    cases x <;> simp [coordinateLiteral]
  simp +decide [pointLiteral, toString_text, hcoordinate]

/-- Literals of lengths are plain. -/
@[simp] theorem plain_pixelsLiteral (n : UInt32) : Plain (pixelsLiteral n) :=
  plain_natText _

/-- Literals of frames are plain. -/
@[simp] theorem plain_sizeLiteral (s : PixelSize) : Plain (sizeLiteral s) := by
  simp +decide [sizeLiteral, toString_text]

/-- Literals of ratios are plain. -/
@[simp] theorem plain_ratioLiteral (width height : UInt32) : Plain (ratioLiteral width height) := by
  simp +decide [ratioLiteral, toString_text]

/-- Plain texts stay plain with commas between them. -/
theorem plain_commas {items : List String} (h : ∀ item ∈ items, Plain item) :
    Plain (commas items) := by
  have hcomma : Plain ", " := by decide
  rw [Plain, commas, String.toList_intercalate]
  induction items with
  | nil => simp
  | cons item rest ih =>
    obtain ⟨hitem, hrest⟩ := List.forall_mem_cons.mp h
    cases rest with
    | nil => simpa [Plain] using hitem
    | cons next rest =>
      simp only [List.map_cons, List.intercalate_cons_cons, List.forall_mem_append]
      exact ⟨⟨hitem, hcomma⟩, ih hrest⟩

/-! ## Beginnings and ends of lines -/

/-- Whether a text starts with something else than a blank. -/
def startsVisibly (s : String) : Bool :=
  s.toList.head?.any fun c => c ≠ ' '

/-- Whether a line has deeper lines below it: it ends in a colon or an opening bracket. -/
def opensBlock (line : List Char) : Bool :=
  line.getLast?.any fun c => c = ':' || c = '('

/-- A text that starts visibly is not empty. -/
theorem ne_empty_of_startsVisibly {s : String} (h : startsVisibly s = true) : s ≠ "" := by
  rintro rfl
  simp [startsVisibly] at h

/-- Whether a line opens a block is seen at its end. -/
theorem opensBlock_append (xs : List Char) {ys : List Char} (h : ys ≠ []) :
    opensBlock (xs ++ ys) = opensBlock ys := by
  rw [opensBlock, opensBlock, List.getLast?_append, List.getLast?_eq_some_getLast h]
  rfl

/-- The beginning of a line. -/
structure Begun (text : String) : Prop where
  plain : Plain text
  visible : startsVisibly text = true

/-- A line without deeper lines below it. -/
structure Whole (text : String) : Prop extends Begun text where
  closed : opensBlock text.toList = false

/-- The first line of a block. -/
structure Heading (text : String) : Prop extends Begun text where
  opens : opensBlock text.toList = true

/-- A name is a line without deeper lines below it. -/
theorem IsName.whole {s : String} (h : IsName s) : Whole s := by
  refine ⟨⟨h.plain, ?_⟩, ?_⟩
  · obtain ⟨c, rest, hchars, hstart, -⟩ := h
    have hc : c ≠ ' ' := by
      rintro rfl
      have hcode := (ContinuesName.toNat (Or.inl hstart)).1
      revert hcode
      decide
    simpa [startsVisibly, hchars] using hc
  · rw [opensBlock, Option.any_eq_false]
    intro c hc
    obtain ⟨hlow, -, hcolon⟩ := (h.continuesName c (List.mem_of_getLast? hc)).toNat
    rw [Bool.or_eq_false_iff, decide_eq_false_iff_not, decide_eq_false_iff_not]
    constructor
    · rintro rfl
      exact hcolon rfl
    · rintro rfl
      revert hlow
      decide

/-! Lines are put together from fixed words and from what stands between them. What is asked of the
words is decided character by character. -/

section Words

variable {s t : String} {cs : List Char}

/-- Fixed words can begin a line if their characters say so. -/
theorem begun_ofList (h : isPrintable cs = true ∧ cs.head?.any (fun c => c ≠ ' ') = true) :
    Begun (String.ofList cs) where
  plain := (plain_ofList cs).mpr ((isPrintable_iff cs).mp h.1)
  visible := by
    rw [startsVisibly, String.toList_ofList]
    exact h.2

/-- Fixed words can be a whole line if their characters say so. -/
theorem whole_ofList (h : (isPrintable cs = true ∧ cs.head?.any (fun c => c ≠ ' ') = true) ∧
    opensBlock cs = false) : Whole (String.ofList cs) where
  toBegun := begun_ofList h.1
  closed := by
    rw [String.toList_ofList]
    exact h.2

/-- Fixed words can head a block if their characters say so. -/
theorem heading_ofList (h : (isPrintable cs = true ∧ cs.head?.any (fun c => c ≠ ' ') = true) ∧
    opensBlock cs = true) : Heading (String.ofList cs) where
  toBegun := begun_ofList h.1
  opens := by
    rw [String.toList_ofList]
    exact h.2

/-- A line goes on with a plain text. -/
theorem Begun.append (h : Begun s) (ht : Plain t) : Begun (s ++ t) where
  plain := (plain_append s t).mpr ⟨h.plain, ht⟩
  visible := by
    have hvisible := h.visible
    unfold startsVisibly at hvisible ⊢
    rw [String.toList_append, List.head?_append]
    cases hs : s.toList.head? with
    | none => simp [hs] at hvisible
    | some c => simpa [hs] using hvisible

/-- A line goes on with words. -/
theorem Begun.words (h : Begun s) (hcs : isPrintable cs = true) : Begun (s ++ String.ofList cs) :=
  h.append ((plain_ofList cs).mpr ((isPrintable_iff cs).mp hcs))

/-- A line ends in words that open no block. -/
theorem Begun.close (h : Begun s)
    (hcs : isPrintable cs = true ∧ cs ≠ [] ∧ opensBlock cs = false) :
    Whole (s ++ String.ofList cs) where
  toBegun := h.words hcs.1
  closed := by
    rw [String.toList_append, String.toList_ofList, opensBlock_append _ hcs.2.1]
    exact hcs.2.2

/-- A line ends in words that open a block. -/
theorem Begun.heading (h : Begun s)
    (hcs : isPrintable cs = true ∧ cs ≠ [] ∧ opensBlock cs = true) :
    Heading (s ++ String.ofList cs) where
  toBegun := h.words hcs.1
  opens := by
    rw [String.toList_append, String.toList_ofList, opensBlock_append _ hcs.2.1]
    exact hcs.2.2

/-- A plain text between words is a line. -/
theorem Plain.whole {ds : List Char} (ht : Plain t)
    (hcs : isPrintable cs = true ∧ cs.head?.any (fun c => c ≠ ' ') = true)
    (hds : isPrintable ds = true ∧ ds ≠ [] ∧ opensBlock ds = false) :
    Whole (String.ofList cs ++ t ++ String.ofList ds) :=
  ((begun_ofList hcs).append ht).close hds

/-- A line ends in a text that could be a line. -/
theorem Begun.whole (h : Begun s) (ht : Whole t) : Whole (s ++ t) where
  toBegun := h.append ht.plain
  closed := by
    have hne : t.toList ≠ [] := by simpa using ne_empty_of_startsVisibly ht.visible
    rw [String.toList_append, opensBlock_append _ hne]
    exact ht.closed

/-- A line may be continued by a text that opens no block, or by nothing. -/
theorem Whole.append (h : Whole s) (hplain : Plain t) (hclosed : opensBlock t.toList = false) :
    Whole (s ++ t) where
  toBegun := h.toBegun.append hplain
  closed := by
    rw [String.toList_append]
    by_cases hempty : t.toList = []
    · rw [hempty, List.append_nil]
      exact h.closed
    · rwa [opensBlock_append _ hempty]

end Words

/-! ## Splitting a script -/

/-- The lines of a text. -/
def linesOf (text : String) : List (List Char) :=
  text.toList.splitOn '\n'

/-- The number of blanks a line starts with. -/
def indent (line : List Char) : ℕ :=
  (line.takeWhile (· = ' ')).length

/-- The characters of a line, with its blanks. -/
def Line.chars (l : Line) : List Char :=
  if l.text.isEmpty then [] else List.replicate (4 * l.level) ' ' ++ l.text.toList

/-- What a line is split into when it is written. -/
def Line.pieces (l : Line) : List (List Char) :=
  l.chars.splitOn '\n'

/-- A line that stays one line when it is written, at the depth that it has. -/
structure Line.Sound (l : Line) : Prop where
  plain : Plain l.text
  visible : l.text ≠ "" → startsVisibly l.text = true

namespace Line

/-- The writer ends a line with a line feed. -/
theorem toList_lineText (l : Line) :
    (Writer.lineText l.level l.text).toList = l.chars ++ ['\n'] := by
  unfold Writer.lineText chars
  split <;> simp [Writer.indentation]

/-- Only a line without text has no characters. -/
@[simp] theorem chars_eq_nil_iff (l : Line) : l.chars = [] ↔ l.text = "" := by
  by_cases h : l.text = "" <;> simp [chars, h]

variable {l : Line}

/-- Blanks bring no control characters into a line. -/
theorem isControl_of_plain (h : Plain l.text) : ∀ c ∈ l.chars, isControl c = false := by
  unfold chars
  split
  · simp
  · rw [List.forall_mem_append]
    refine ⟨fun c hc => ?_, h⟩
    rw [List.eq_of_mem_replicate hc]
    decide

/-- A sound line has no control characters. -/
theorem Sound.isControl (h : l.Sound) : ∀ c ∈ l.chars, isControl c = false :=
  isControl_of_plain h.plain

/-- A line without control characters is not split. -/
theorem pieces_of_plain (h : Plain l.text) : l.pieces = [l.chars] := by
  have hfeed : '\n' ∉ l.chars := by
    intro hmem
    exact absurd (isControl_of_plain h _ hmem) (by decide)
  exact List.splitOn_eq_singleton hfeed

/-- The blanks of a sound line are those of its depth, and something follows them. -/
theorem Sound.indent_chars (h : l.Sound) (hne : l.text ≠ "") :
    indent l.chars = 4 * l.level ∧ indent l.chars < l.chars.length := by
  have hvisible := h.visible hne
  have htake : l.text.toList.takeWhile (· = ' ') = [] := by
    cases hchars : l.text.toList with
    | nil => rfl
    | cons c rest =>
      have hc : c ≠ ' ' := by simpa [startsVisibly, hchars] using hvisible
      simp [hc]
  have hblanks : ∀ c ∈ List.replicate (4 * l.level) ' ', decide (c = ' ') = true := by
    intro c hc
    simpa using List.eq_of_mem_replicate hc
  have hindent : indent l.chars = 4 * l.level := by
    simp [indent, chars, hne, List.takeWhile_append_of_pos hblanks, htake]
  refine ⟨hindent, ?_⟩
  have hlength : 0 < l.text.toList.length := List.length_pos_iff.mpr (by simpa using hne)
  rw [hindent]
  simpa [chars, hne] using hlength

/-- Whether a line opens a block depends on its text. -/
theorem opensBlock_chars (hne : l.text ≠ "") : opensBlock l.chars = opensBlock l.text.toList := by
  have htext : l.text.toList ≠ [] := by simpa using hne
  simp [chars, hne, opensBlock_append _ htext]

end Line

/-- What a text of statements is split into is what their lines are split into. -/
theorem linesOf_textOf_eq_flatMap (ss : List (Statement LetterEffect)) :
    linesOf (textOf ss) = (ss.flatMap Statement.lines).flatMap Line.pieces ++ [[]] := by
  rw [linesOf, textOf, linesText, String.toList_join]
  induction ss.flatMap Statement.lines with
  | nil => simp
  | cons l ls ih =>
    simp only [List.map_cons, List.flatMap_cons, Line.toList_lineText, List.append_assoc,
      List.cons_append, List.nil_append]
    rw [List.splitOn_append_cons_self, ih, Line.pieces]

/-- The lines of statements with sound lines are what a text of them is split into. -/
theorem linesOf_textOf {ss : List (Statement LetterEffect)} (h : ∀ s ∈ ss, ∀ l ∈ s.lines, l.Sound) :
    linesOf (textOf ss) = (ss.flatMap Statement.lines).map Line.chars ++ [[]] := by
  have hpieces : ∀ l ∈ ss.flatMap Statement.lines, l.pieces = [l.chars] := by
    intro l hl
    obtain ⟨s, hs, hl⟩ := List.mem_flatMap.mp hl
    exact Line.pieces_of_plain (h s hs l hl).plain
  rw [linesOf_textOf_eq_flatMap, List.map_eq_flatMap, List.flatMap_congr hpieces]

end Montage.Script
