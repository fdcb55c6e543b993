import Montage.Proofs.Literals

/-!
# Scripts as tokens

A script is read here as its language reads it, from the text alone. A line is scanned character by
character into words, numbers, literals and single marks; blanks separate tokens and a number sign
starts a comment. A line that leaves a bracket open is continued on the next one. What is left are
the lines of code with their indentation, which is all that later modules look at.

The scanner is a fold, so a line is scanned piece by piece: names, numbers and literals give the
same tokens wherever they stand.
-/

namespace Montage.Script

/-! ## The scanner -/

/-- A piece of a line of code. -/
inductive Token where
  | word (name : String)
  | number (digits : String)
  /-- What stands between two quotes, escapes included. -/
  | quoted (body : List Char)
  | mark (c : Char)
  deriving DecidableEq, Repr

/-- What the scanner is in the middle of, with the characters read so far, the last one first. -/
inductive Mode where
  | idle
  | word (read : List Char)
  | number (read : List Char)
  | quoted (read : List Char)
  | escaped (read : List Char)
  | comment

namespace Mode

/-- The token that ends where nothing continues it. -/
def pending : Mode → List Token
  | word read => [.word (String.ofList read.reverse)]
  | number read => [.number (String.ofList read.reverse)]
  | _ => []

/-- What a character between tokens gives, and what it starts. -/
def start (c : Char) : List Token × Mode :=
  if isNameStart c then ([], word [c])
  else if c.isDigit then ([], number [c])
  else if c = '"' then ([], quoted [])
  else if c = '#' then ([], comment)
  else if c = ' ' then ([], idle)
  else ([.mark c], idle)

/-- Whether a character continues a number. -/
def continuesNumber (c : Char) : Bool :=
  isNamePart c || c = '.'

/-- The tokens that end with a character, and what the scanner is in the middle of behind it. -/
def next : Mode → Char → List Token × Mode
  | idle, c => start c
  | word read, c =>
    if isNamePart c then ([], word (c :: read))
    else ((word read).pending ++ (start c).1, (start c).2)
  | number read, c =>
    if continuesNumber c then ([], number (c :: read))
    else ((number read).pending ++ (start c).1, (start c).2)
  | quoted read, c =>
    if c = '"' then ([.quoted read.reverse], idle)
    else if c = '\\' then ([], escaped (c :: read))
    else ([], quoted (c :: read))
  | escaped read, c => ([], quoted (c :: read))
  | comment, _ => ([], comment)

end Mode

/-- Scans the rest of a line. -/
def scan : Mode → List Char → List Token
  | mode, [] => mode.pending
  | mode, c :: rest => (mode.next c).1 ++ scan (mode.next c).2 rest

/-- The tokens of a line. -/
def tokens (line : List Char) : List Token :=
  scan .idle line

/-! ## Pieces of a line -/

section Pieces

variable {rest : List Char}

/-- Blanks in front of a line do not count. -/
@[simp] theorem tokens_replicate_append (n : ℕ) (cs : List Char) :
    tokens (List.replicate n ' ' ++ cs) = tokens cs := by
  induction n with
  | zero => rfl
  | succ n ih => exact ih

/-- What continues a word is read into it. -/
theorem scan_word_append {cs : List Char} (h : ∀ c ∈ cs, ContinuesName c) (read : List Char) :
    scan (.word read) (cs ++ rest) = scan (.word (cs.reverse ++ read)) rest := by
  induction cs generalizing read with
  | nil => rfl
  | cons c cs ih =>
    obtain ⟨hc, hcs⟩ := List.forall_mem_cons.mp h
    have hnext : Mode.next (.word read) c = ([], .word (c :: read)) := by
      rw [Mode.next, if_pos ((isNamePart_iff c).mpr hc)]
    rw [List.cons_append, scan, hnext, List.nil_append, ih hcs, List.reverse_cons,
      List.append_assoc, List.singleton_append]

/-- A name is read into one word. -/
theorem IsName.scan_append {s : String} (h : IsName s) (rest : List Char) :
    scan .idle (s.toList ++ rest) = scan (.word s.toList.reverse) rest := by
  obtain ⟨c, cs, hchars, hstart, hcs⟩ := h
  have hnext : Mode.next .idle c = ([], .word [c]) := by
    rw [Mode.next, Mode.start, if_pos ((isNameStart_iff c).mpr hstart)]
  rw [hchars, List.cons_append, scan, hnext, List.nil_append, scan_word_append hcs,
    List.reverse_cons]

/-- A name on its own is a word. -/
theorem IsName.tokens_eq {s : String} (h : IsName s) : tokens s.toList = [.word s] := by
  have hscan := h.scan_append []
  rw [List.append_nil] at hscan
  rw [tokens, hscan, scan, Mode.pending, List.reverse_reverse, String.ofList_toList]

/-- What a character of a text is written as stays between the quotes. -/
theorem scan_escape_append (c : Char) (read : List Char) :
    scan (.quoted read) (escape c ++ rest) = scan (.quoted ((escape c).reverse ++ read)) rest := by
  unfold escape
  split_ifs with hquote hslash hline hreturn htab hcontrol
  · rfl
  · rfl
  · rfl
  · rfl
  · rfl
  · have hhigh := hexDigit_ne (n := c.toNat / 16) (by have := toNat_lt_of_isControl hcontrol; omega)
    have hlow := hexDigit_ne (n := c.toNat % 16) (by omega)
    simp [scan, Mode.next, hhigh, hlow]
  · simp [scan, Mode.next, hquote, hslash]

/-- The token of a literal. -/
def literal (s : String) : Token :=
  .quoted (s.toList.flatMap escape)

/-- The literal of a text is one token. -/
theorem scan_textLiteral_append (s : String) (rest : List Char) :
    scan .idle ((textLiteral s).toList ++ rest) = literal s :: scan .idle rest := by
  have hbody (cs read : List Char) : scan (.quoted read) (cs.flatMap escape ++ '"' :: rest) =
      .quoted (read.reverse ++ cs.flatMap escape) :: scan .idle rest := by
    induction cs generalizing read with
    | nil => simp [scan, Mode.next]
    | cons c cs ih =>
      rw [List.flatMap_cons, List.append_assoc, scan_escape_append, ih]
      simp
  have hopen : scan .idle ('"' :: (s.toList.flatMap escape ++ '"' :: rest)) =
      scan (.quoted []) (s.toList.flatMap escape ++ '"' :: rest) := rfl
  rw [textLiteral, String.toList_ofList, List.cons_append, List.append_assoc,
    List.singleton_append, hopen, hbody]
  rfl

/-! ## Numbers -/

/-- Outside of literals and comments. -/
def Mode.IsOpen : Mode → Prop
  | idle => True
  | word _ => True
  | number _ => True
  | _ => False

/-- Only a quote and a number sign lead into literals and comments. -/
theorem Mode.IsOpen.next {m : Mode} (h : m.IsOpen) {c : Char} (hquote : c ≠ '"') (hsign : c ≠ '#') :
    (m.next c).2.IsOpen := by
  have hstart : (start c).2.IsOpen := by
    unfold start
    split_ifs <;> trivial
  cases m with
  | idle => exact hstart
  | word read =>
    rw [Mode.next]
    split
    · trivial
    · exact hstart
  | number read =>
    rw [Mode.next]
    split
    · trivial
    · exact hstart
  | quoted | escaped | comment => exact h.elim

/-- Where a token ends, the scanner is between tokens again. -/
theorem Mode.IsOpen.scan_cons {m : Mode} (h : m.IsOpen) {c : Char} (hc : continuesNumber c = false)
    (rest : List Char) : scan m (c :: rest) = m.pending ++ scan .idle (c :: rest) := by
  have hname : isNamePart c = false := (Bool.or_eq_false_iff.mp hc).1
  cases m with
  | idle => rfl
  | word read => simp [scan, Mode.next, hname]
  | number read => simp [scan, Mode.next, hc]
  | quoted | escaped | comment => exact h.elim

/-- A name is a word where it ends. -/
theorem IsName.scan_append_cons {s : String} (h : IsName s) {c : Char}
    (hc : Mode.continuesNumber c = false) (rest : List Char) :
    scan .idle (s.toList ++ c :: rest) = .word s :: scan .idle (c :: rest) := by
  have hopen : (Mode.word s.toList.reverse).IsOpen := trivial
  rw [h.scan_append, hopen.scan_cons hc, Mode.pending, List.reverse_reverse, String.ofList_toList,
    List.singleton_append]

/-- Characters without literals and comments give their tokens, whatever follows the end of the last
one. -/
theorem scan_append_cons {m : Mode} (hm : m.IsOpen) {cs : List Char}
    (hcs : ∀ c ∈ cs, c ≠ '"' ∧ c ≠ '#') {c : Char} (hc : Mode.continuesNumber c = false)
    (rest : List Char) : scan m (cs ++ c :: rest) = scan m cs ++ scan .idle (c :: rest) := by
  induction cs generalizing m with
  | nil => exact hm.scan_cons hc rest
  | cons d cs ih =>
    obtain ⟨hd, hcs⟩ := List.forall_mem_cons.mp hcs
    rw [List.cons_append, scan, scan, ih (hm.next hd.1 hd.2) hcs, List.append_assoc]

/-- Digits are read into one number. -/
theorem scan_number_digits {ds : List Char} (h : ∀ d ∈ ds, d.isDigit = true) (read : List Char) :
    scan (.number read) ds = [.number (String.ofList (read.reverse ++ ds))] := by
  induction ds generalizing read with
  | nil => simp [scan, Mode.pending]
  | cons d ds ih =>
    obtain ⟨hd, hds⟩ := List.forall_mem_cons.mp h
    have hnext : Mode.next (.number read) d = ([], .number (d :: read)) := by
      rw [Mode.next, if_pos (by simp [Mode.continuesNumber, isNamePart, Char.isAlphanum, hd])]
    rw [scan, hnext, List.nil_append, ih hds, List.reverse_cons, List.append_assoc,
      List.singleton_append]

/-- A digit is no letter. -/
theorem isNameStart_of_isDigit {c : Char} (h : c.isDigit = true) : isNameStart c = false := by
  have halpha : c.isAlpha = false := by
    cases hc : c.isAlpha with
    | false => rfl
    | true => rw [isDigit_of_isAlpha hc] at h; exact absurd h Bool.false_ne_true
  have hunderscore : c ≠ '_' := by
    rintro rfl
    exact absurd h (by decide)
  simp [isNameStart, halpha, hunderscore]

/-- A natural number on its own is one token. -/
theorem tokens_natText (n : ℕ) :
    tokens (Decimal.natText n).toList = [.number (Decimal.natText n)] := by
  rw [Decimal.natText, String.toList_ofList]
  have hdigits : ∀ d ∈ Decimal.digits n, d.isDigit = true := fun d hd =>
    Decimal.isDigit_of_mem_digits hd
  cases hds : Decimal.digits n with
  | nil => exact absurd hds (Decimal.digits_ne_nil n)
  | cons d ds =>
    rw [hds] at hdigits
    obtain ⟨hd, hrest⟩ := List.forall_mem_cons.mp hdigits
    have hnext : Mode.next .idle d = ([], .number [d]) := by
      rw [Mode.next, Mode.start, if_neg (by simp [isNameStart_of_isDigit hd]), if_pos hd]
    rw [tokens, scan, hnext, List.nil_append, scan_number_digits hrest]
    rfl

/-- A digit starts no literal and no comment. -/
theorem ne_of_isDigit {c : Char} (h : c.isDigit = true) : c ≠ '"' ∧ c ≠ '#' := by
  constructor <;> rintro rfl <;> exact absurd h (by decide)

/-- A natural number is one token where it ends. -/
theorem scan_natText_append (n : ℕ) {c : Char} (hc : Mode.continuesNumber c = false) :
    scan .idle ((Decimal.natText n).toList ++ c :: rest) =
      .number (Decimal.natText n) :: scan .idle (c :: rest) := by
  have hchars : ∀ d ∈ (Decimal.natText n).toList, d ≠ '"' ∧ d ≠ '#' := by
    rw [Decimal.natText, String.toList_ofList]
    exact fun d hd => ne_of_isDigit (Decimal.isDigit_of_mem_digits hd)
  have hscan := scan_append_cons (m := .idle) trivial hchars hc rest
  rw [hscan, ← tokens, tokens_natText, List.singleton_append]

/-- The tokens of a whole number. -/
def intTokens (i : ℤ) : List Token :=
  (if i < 0 then [.mark '-'] else []) ++ [.number (Decimal.natText i.natAbs)]

/-- A whole number is a sign, if it is negative, and a natural number. -/
theorem scan_intText_append (i : ℤ) {c : Char} (hc : Mode.continuesNumber c = false) :
    scan .idle ((Decimal.intText i).toList ++ c :: rest) =
      intTokens i ++ scan .idle (c :: rest) := by
  unfold Decimal.intText intTokens
  split
  · have hsign : scan .idle (("-" ++ Decimal.natText i.natAbs).toList ++ c :: rest) =
        .mark '-' :: scan .idle ((Decimal.natText i.natAbs).toList ++ c :: rest) := by
      rw [String.toList_append]
      rfl
    rw [hsign, scan_natText_append _ hc]
    rfl
  · rw [scan_natText_append _ hc]
    rfl

/-- The tokens of a number. -/
def numberTokens (x : Float) : List Token :=
  tokens (numberLiteral x).toList

/-- A number gives its tokens where it ends. -/
theorem scan_numberLiteral_append (x : Float) {c : Char} (hc : Mode.continuesNumber c = false) :
    scan .idle ((numberLiteral x).toList ++ c :: rest) =
      numberTokens x ++ scan .idle (c :: rest) := by
  rw [numberTokens]
  rcases numberLiteral_cases x with hcall | hchars
  · simp only [numberCalls, List.mem_cons, List.not_mem_nil, or_false] at hcall
    rcases hcall with hcall | hcall | hcall <;> rw [hcall] <;> rfl
  · refine scan_append_cons (m := .idle) trivial (fun d hd => ?_) hc rest
    rcases hchars d hd with hdigit | rfl | rfl
    · exact ne_of_isDigit hdigit
    · decide
    · decide

/-- Whether a token is a part of a number that is finite. -/
def Token.isFigure : Token → Bool
  | number _ => true
  | mark c => c = '-' || c = '.'
  | _ => false

/-- Between tokens or in the middle of a number. -/
def Mode.IsNumeric : Mode → Prop
  | idle => True
  | number _ => True
  | _ => False

/-- The characters of a finite number end and start nothing but figures. -/
theorem Mode.IsNumeric.next {m : Mode} (h : m.IsNumeric) {c : Char}
    (hc : c.isDigit = true ∨ c = '.' ∨ c = '-') :
    (∀ t ∈ (m.next c).1, t.isFigure = true) ∧ (m.next c).2.IsNumeric := by
  have hdigit (hc : c.isDigit = true) : start c = ([], number [c]) := by
    rw [start, if_neg (by simp [isNameStart_of_isDigit hc]), if_pos hc]
  have hcontinues (hc : c.isDigit = true) : continuesNumber c = true := by
    simp [continuesNumber, isNamePart, Char.isAlphanum, hc]
  cases m with
  | idle =>
    rw [Mode.next]
    rcases hc with hc | rfl | rfl
    · rw [hdigit hc]
      exact ⟨by simp, trivial⟩
    · exact ⟨by decide, trivial⟩
    · exact ⟨by decide, trivial⟩
  | number read =>
    rw [Mode.next]
    rcases hc with hc | rfl | rfl
    · rw [if_pos (hcontinues hc)]
      exact ⟨by simp, trivial⟩
    · exact ⟨by simp [continuesNumber], trivial⟩
    · rw [if_neg (by decide)]
      exact ⟨by simp +decide [pending, Token.isFigure, start], trivial⟩
  | word | quoted | escaped | comment => exact h.elim

/-- A finite number is made of figures. -/
theorem isFigure_of_mem_scan {m : Mode} (hm : m.IsNumeric) {cs : List Char}
    (hcs : ∀ c ∈ cs, c.isDigit = true ∨ c = '.' ∨ c = '-') :
    ∀ t ∈ scan m cs, t.isFigure = true := by
  induction cs generalizing m with
  | nil =>
    cases m with
    | idle => simp [scan, Mode.pending]
    | number read => simp [scan, Mode.pending, Token.isFigure]
    | word | quoted | escaped | comment => exact hm.elim
  | cons c cs ih =>
    obtain ⟨hc, hcs⟩ := List.forall_mem_cons.mp hcs
    obtain ⟨htokens, hnext⟩ := hm.next hc
    rw [scan, List.forall_mem_append]
    exact ⟨htokens, ih hnext hcs⟩

/-- What numbers that are not finite are read as. -/
def callTokens : List (List Token) :=
  [[.word "float", .mark '(', literal "nan", .mark ')'],
    [.word "float", .mark '(', literal "inf", .mark ')'],
    [.mark '-', .word "float", .mark '(', literal "inf", .mark ')']]

/-- The tokens of a number are a call or figures. -/
theorem numberTokens_cases (x : Float) :
    numberTokens x ∈ callTokens ∨ ∀ t ∈ numberTokens x, t.isFigure = true := by
  rcases numberLiteral_cases x with hcall | hchars
  · have hcalls : ∀ text ∈ numberCalls, tokens text.toList ∈ callTokens := by decide +kernel
    exact Or.inl (hcalls _ hcall)
  · exact Or.inr (isFigure_of_mem_scan (m := .idle) trivial hchars)

/-! ## Points and sizes -/

/-- The tokens of a coordinate. -/
def coordinateTokens : Coordinate → List Token
  | .pixels n => intTokens n
  | .center => [literal "center"]

/-- A coordinate gives its tokens where it ends. -/
theorem scan_coordinateLiteral_append (x : Coordinate) {c : Char}
    (hc : Mode.continuesNumber c = false) :
    scan .idle ((coordinateLiteral x).toList ++ c :: rest) =
      coordinateTokens x ++ scan .idle (c :: rest) := by
  cases x with
  | pixels n => exact scan_intText_append n hc
  | center =>
    rw [coordinateLiteral, scan_textLiteral_append]
    rfl

/-- The tokens of a pair of coordinates. -/
def pointTokens (p : Point) : List Token :=
  .mark '(' :: coordinateTokens p.x ++ .mark ',' :: coordinateTokens p.y ++ [.mark ')']

/-- A pair of coordinates gives its tokens. -/
theorem scan_pointLiteral_append (p : Point) (rest : List Char) :
    scan .idle ((pointLiteral p).toList ++ rest) = pointTokens p ++ scan .idle rest := by
  have hopen (rest : List Char) : scan .idle ('(' :: rest) = .mark '(' :: scan .idle rest := rfl
  have hcomma (rest : List Char) :
      scan .idle (',' :: ' ' :: rest) = .mark ',' :: scan .idle rest := rfl
  have hclose (rest : List Char) : scan .idle (')' :: rest) = .mark ')' :: scan .idle rest := rfl
  have hends : Mode.continuesNumber ',' = false ∧ Mode.continuesNumber ')' = false := by decide
  simp [pointLiteral, pointTokens, toString_text, hopen, hcomma, hclose,
    scan_coordinateLiteral_append _ hends.1, scan_coordinateLiteral_append _ hends.2]

/-- The tokens of a size. -/
def sizeTokens (s : PixelSize) : List Token :=
  [.mark '(', .number (pixelsLiteral s.width), .mark ',', .number (pixelsLiteral s.height),
    .mark ')']

/-- A size gives its tokens. -/
theorem scan_sizeLiteral_append (s : PixelSize) (rest : List Char) :
    scan .idle ((sizeLiteral s).toList ++ rest) = sizeTokens s ++ scan .idle rest := by
  have hopen (rest : List Char) : scan .idle ('(' :: rest) = .mark '(' :: scan .idle rest := rfl
  have hcomma (rest : List Char) :
      scan .idle (',' :: ' ' :: rest) = .mark ',' :: scan .idle rest := rfl
  have hclose (rest : List Char) : scan .idle (')' :: rest) = .mark ')' :: scan .idle rest := rfl
  have hends : Mode.continuesNumber ',' = false ∧ Mode.continuesNumber ')' = false := by decide
  simp [sizeLiteral, sizeTokens, pixelsLiteral, toString_text, hopen, hcomma, hclose,
    scan_natText_append _ hends.1, scan_natText_append _ hends.2]

/-- A comment has no tokens. -/
@[simp] theorem tokens_comment (cs : List Char) : tokens ('#' :: cs) = [] := by
  have hcomment : scan .comment cs = [] := by
    induction cs with
    | nil => rfl
    | cons c cs ih => exact ih
  exact hcomment

end Pieces

/-! ## Lines of code -/

/-- A line of code. -/
structure CodeLine where
  /-- The number of blanks in front of it. -/
  indent : ℕ
  tokens : List Token
  deriving DecidableEq, Repr

/-- A line of a text as code. -/
def CodeLine.read (line : List Char) : CodeLine :=
  ⟨Script.indent line, Script.tokens line⟩

/-- How many brackets a token opens. -/
def Token.opened : Token → ℤ
  | mark c =>
    if c ∈ ['(', '[', '\x7b'] then 1 else if c ∈ [')', ']', '\x7d'] then -1 else 0
  | _ => 0

/-- How many brackets some tokens leave open. -/
def opened : List Token → ℤ
  | [] => 0
  | t :: ts => t.opened + opened ts

/-- A line, or what it makes of an earlier line that was left open. -/
def CodeLine.after (first : Option CodeLine) (l : CodeLine) : CodeLine :=
  first.elim l fun first => ⟨first.indent, first.tokens ++ l.tokens⟩

/-- Joins lines as long as a bracket is open. Lines without tokens do not count. -/
def joined (first : Option CodeLine) : List CodeLine → List CodeLine
  | [] => first.toList
  | l :: rest =>
    if 0 < opened (l.after first).tokens then joined (some (l.after first)) rest
    else if (l.after first).tokens = [] then joined none rest
    else l.after first :: joined none rest

/-- The lines of code of a script. -/
def codeOf (text : String) : List CodeLine :=
  joined none ((linesOf text).map CodeLine.read)

/-- No tokens open no brackets. -/
@[simp] theorem opened_nil : opened [] = 0 :=
  rfl

/-- Tokens open the brackets that the first of them and the others open. -/
@[simp] theorem opened_cons (t : Token) (ts : List Token) :
    opened (t :: ts) = t.opened + opened ts :=
  rfl

/-- Tokens open the brackets that their two parts open. -/
@[simp] theorem opened_append (ss ts : List Token) : opened (ss ++ ts) = opened ss + opened ts := by
  induction ss with
  | nil => simp
  | cons s ss ih => rw [List.cons_append, opened_cons, opened_cons, ih, Int.add_assoc]

/-- Tokens that open and close no brackets leave none open. -/
theorem opened_eq_zero {ts : List Token} (h : ∀ t ∈ ts, t.opened = 0) : opened ts = 0 := by
  induction ts with
  | nil => rfl
  | cons t ts ih =>
    obtain ⟨ht, hts⟩ := List.forall_mem_cons.mp h
    rw [opened_cons, ht, ih hts, Int.add_zero]

/-- Figures open no brackets. -/
theorem Token.opened_of_isFigure {t : Token} (h : t.isFigure = true) : t.opened = 0 := by
  cases t with
  | mark c =>
    simp only [Token.isFigure, Bool.or_eq_true, decide_eq_true_eq] at h
    rcases h with rfl | rfl <;> decide
  | word | number | quoted => rfl

/-- A number closes the brackets that it opens. -/
@[simp] theorem opened_numberTokens (x : Float) : opened (numberTokens x) = 0 := by
  rcases numberTokens_cases x with hcall | hfigures
  · have hcalls : ∀ ts ∈ callTokens, opened ts = 0 := by decide +kernel
    exact hcalls _ hcall
  · exact opened_eq_zero fun t ht => Token.opened_of_isFigure (hfigures t ht)

/-- A whole number opens no brackets. -/
@[simp] theorem opened_intTokens (i : ℤ) : opened (intTokens i) = 0 := by
  unfold intTokens
  split <;> rfl

/-- A coordinate opens no brackets. -/
@[simp] theorem opened_coordinateTokens (x : Coordinate) : opened (coordinateTokens x) = 0 := by
  cases x with
  | pixels n => exact opened_intTokens n
  | center => rfl

/-- A pair of coordinates closes the brackets that it opens. -/
@[simp] theorem opened_pointTokens (p : Point) : opened (pointTokens p) = 0 := by
  simp +decide [pointTokens, Token.opened]

/-- A size closes the brackets that it opens. -/
@[simp] theorem opened_sizeTokens (s : PixelSize) : opened (sizeTokens s) = 0 := by
  simp +decide [sizeTokens, Token.opened]

/-! ## Joining lines -/

/-- Lines that are complete: they are joined to some code, whatever follows. -/
def Joins (ls code : List CodeLine) : Prop :=
  ∀ rest, joined none (ls ++ rest) = code ++ joined none rest

namespace Joins

/-- No lines give no code. -/
theorem nil : Joins [] [] :=
  fun _ => rfl

/-- Complete lines one after the other give the code of both. -/
theorem append {ls ms code more : List CodeLine} (hl : Joins ls code) (hm : Joins ms more) :
    Joins (ls ++ ms) (code ++ more) := by
  intro rest
  rw [List.append_assoc, hl, hm, List.append_assoc]

/-- Complete lines collected over a list give the code of its members. -/
theorem flatMap {α : Type} {f g : α → List CodeLine} {xs : List α}
    (h : ∀ a ∈ xs, Joins (f a) (g a)) : Joins (xs.flatMap f) (xs.flatMap g) := by
  induction xs with
  | nil => exact nil
  | cons a xs ih =>
    obtain ⟨ha, hxs⟩ := List.forall_mem_cons.mp h
    exact ha.append (ih hxs)

/-- A line without tokens gives no code. -/
theorem empty (indent : ℕ) : Joins [⟨indent, []⟩] [] :=
  fun _ => rfl

/-- A line that leaves no bracket open is a line of code. -/
theorem line {l : CodeLine} (hopened : opened l.tokens = 0) (hne : l.tokens ≠ []) :
    Joins [l] [l] := by
  intro rest
  simp [joined, CodeLine.after, hopened, hne]

/-- Lines that leave no bracket open are lines of code, except those without tokens. -/
theorem filter {ls : List CodeLine} (h : ∀ l ∈ ls, opened l.tokens = 0) :
    Joins ls (ls.filter fun l => l.tokens ≠ []) := by
  induction ls with
  | nil => exact nil
  | cons l ls ih =>
    obtain ⟨hl, hls⟩ := List.forall_mem_cons.mp h
    by_cases hne : l.tokens = []
    · rw [List.filter_cons_of_neg (by simp [hne])]
      intro rest
      rw [List.cons_append, joined, if_neg (by simp [CodeLine.after, hl]),
        if_pos (by simp [CodeLine.after, hne]), ih hls]
    · rw [List.filter_cons_of_pos (by simp [hne])]
      exact (line hl hne).append (ih hls)

/-- A line that leaves a bracket open is continued up to the line that closes it. -/
theorem block (first : CodeLine) (body : List CodeLine) (last : CodeLine)
    (hfirst : opened first.tokens = 1) (hbody : ∀ l ∈ body, opened l.tokens = 0)
    (hlast : opened last.tokens = -1) :
    Joins (first :: body ++ [last])
      [⟨first.indent, first.tokens ++ body.flatMap CodeLine.tokens ++ last.tokens⟩] := by
  intro rest
  have hclose (ls : List CodeLine) (l : CodeLine) (hl : opened l.tokens = 1)
      (hls : ∀ m ∈ ls, opened m.tokens = 0) : joined (some l) (ls ++ last :: rest) =
        ⟨l.indent, l.tokens ++ ls.flatMap CodeLine.tokens ++ last.tokens⟩ :: joined none rest := by
    induction ls generalizing l with
    | nil =>
      have hne : last.tokens ≠ [] := by
        intro hnil
        rw [hnil] at hlast
        exact absurd hlast (by decide)
      simp [joined, CodeLine.after, hl, hlast, hne]
    | cons m ls ih =>
      obtain ⟨hm, hls⟩ := List.forall_mem_cons.mp hls
      have hafter : opened (m.after (some l)).tokens = 1 := by
        simp [CodeLine.after, hl, hm]
      rw [List.cons_append, joined, if_pos (by rw [hafter]; decide), ih _ hafter hls]
      simp [CodeLine.after]
  have hstart : joined none (first :: body ++ [last] ++ rest) =
      joined (some first) (body ++ last :: rest) := by
    rw [List.cons_append, List.cons_append, joined, if_pos (by simp [CodeLine.after, hfirst])]
    simp [CodeLine.after]
  rw [hstart, hclose body first hfirst hbody]
  rfl

end Joins

end Montage.Script
