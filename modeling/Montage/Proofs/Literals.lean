import Mathlib.Data.List.Basic
import Montage.Proofs.Lines

/-!
# Literals are read back

A script reads a literal from its opening quote to the first quote that no backslash escapes, and
replaces every escape by the character it stands for. What a character is written as is read as this
character, whatever follows it, so the reader stands at the beginning of the next character again;
this holds for quotes, backslashes and letters in any order. So the literal of a text ends where it
is meant to end and stands for the text, and different texts have different literals.
-/

namespace Montage.Script

/-! ## Escapes -/

/-- Whether a character escapes what comes after it: a backslash does, unless it is escaped. -/
def escapesNext (escaped : Bool) (c : Char) : Bool :=
  !escaped && c = '\\'

/-- Whether what comes after some characters of a literal is escaped. -/
def endsEscaping (before : List Char) : Bool :=
  before.foldl escapesNext false

/-- The character that a character behind a backslash stands for. -/
def escaped? (c : Char) : Option Char :=
  if c = '"' then some '"'
  else if c = '\\' then some '\\'
  else if c = 'n' then some '\n'
  else if c = 'r' then some '\r'
  else if c = 't' then some '\t'
  else none

/-- The character of a code in two hexadecimal digits. -/
def byteCharacter? (a b : Char) : Option Char := do
  let high ← Decimal.hexValue? a
  let low ← Decimal.hexValue? b
  return Char.ofNat (16 * high + low)

/-- Reads a literal behind its opening quote. Gives the text up to the closing quote and what
follows it. A literal stays on its line, and a backslash in it starts one of the escapes. -/
def readText? : List Char → Option (List Char × List Char)
  | [] => none
  | '"' :: rest => some ([], rest)
  | '\\' :: 'x' :: a :: b :: rest =>
    match byteCharacter? a b with
    | none => none
    | some c => (readText? rest).map fun p => (c :: p.1, p.2)
  | '\\' :: c :: rest =>
    match escaped? c with
    | none => none
    | some c => (readText? rest).map fun p => (c :: p.1, p.2)
  | c :: rest =>
    if c = '\\' || c = '\n' || c = '\r' then none
    else (readText? rest).map fun p => (c :: p.1, p.2)

/-- Reads a literal and gives what follows it. -/
def readLiteral? : List Char → Option (String × List Char)
  | '"' :: cs => (readText? cs).map fun p => (String.ofList p.1, p.2)
  | _ => none

/-! ## What a character is written as -/

/-- A hexadecimal digit has its value. -/
theorem hexValue?_hexDigit {n : ℕ} (h : n < 16) :
    Decimal.hexValue? (Decimal.hexDigit n) = some n := by
  revert n
  decide

/-- A hexadecimal digit is neither a backslash nor a quote. -/
theorem hexDigit_ne {n : ℕ} (h : n < 16) :
    Decimal.hexDigit n ≠ '\\' ∧ Decimal.hexDigit n ≠ '"' := by
  revert n
  decide

/-- The code of a control character has two hexadecimal digits. -/
theorem toNat_lt_of_isControl {c : Char} (h : isControl c = true) : c.toNat < 160 := by
  simp only [isControl, Bool.or_eq_true, Bool.and_eq_true, decide_eq_true_eq] at h
  omega

/-- The two digits of an escaped control character name it. -/
theorem byteCharacter?_hexDigit {c : Char} (h : isControl c = true) :
    byteCharacter? (Decimal.hexDigit (c.toNat / 16)) (Decimal.hexDigit (c.toNat % 16)) =
      some c := by
  have hcode := toNat_lt_of_isControl h
  rw [byteCharacter?, hexValue?_hexDigit (by omega), hexValue?_hexDigit (by omega)]
  simp only [Option.bind_eq_bind, Option.bind_some, Nat.div_add_mod, Char.ofNat_toNat]
  rfl

/-- What a character is written as is read as the character, whatever follows. -/
theorem readText?_escape (c : Char) (cs : List Char) :
    readText? (escape c ++ cs) = (readText? cs).map fun p => (c :: p.1, p.2) := by
  unfold escape
  split_ifs with hquote hslash hline hreturn htab hcontrol
  · subst hquote
    rfl
  · subst hslash
    rfl
  · subst hline
    rfl
  · subst hreturn
    rfl
  · subst htab
    rfl
  · simp only [List.cons_append, List.nil_append, readText?, byteCharacter?_hexDigit hcontrol]
  · simp [readText?, hslash, hline, hreturn]

/-- What a character is written as leaves the next character as it is. -/
theorem endsEscaping_escape_append (c : Char) (cs : List Char) :
    endsEscaping (escape c ++ cs) = endsEscaping cs := by
  have hclosed : (escape c).foldl escapesNext false = false := by
    unfold escape
    split_ifs with hquote hslash hline hreturn htab hcontrol
    · decide
    · decide
    · decide
    · decide
    · decide
    · have hlow := (hexDigit_ne (n := c.toNat % 16) (by omega)).1
      simp [escapesNext, hlow]
    · simp [escapesNext, hslash]
  rw [endsEscaping, List.foldl_append, hclosed, endsEscaping]

/-- What a character is written as has a quote only behind a backslash. -/
theorem endsEscaping_of_escape_eq {c : Char} {before after : List Char}
    (h : escape c = before ++ '"' :: after) : endsEscaping before = true := by
  have hmem : '"' ∈ escape c := by simp [h]
  have hc : c = '"' := by
    unfold escape at hmem
    split_ifs at hmem with hquote hslash hline hreturn htab hcontrol
    · exact hquote
    · simp at hmem
    · simp at hmem
    · simp at hmem
    · simp at hmem
    · have hcode := toNat_lt_of_isControl hcontrol
      have hhigh := (hexDigit_ne (n := c.toNat / 16) (by omega)).2
      have hlow := (hexDigit_ne (n := c.toNat % 16) (by omega)).2
      simp [Ne.symm hhigh, Ne.symm hlow] at hmem
    · exact (List.mem_singleton.mp hmem).symm
  subst hc
  cases before with
  | nil => simp [escape] at h
  | cons b rest =>
    obtain ⟨rfl, hrest⟩ : '\\' = b ∧ ['"'] = rest ++ '"' :: after := by simpa [escape] using h
    cases rest with
    | nil => decide
    | cons d rest => simp at hrest

/-! ## What a text is written as -/

/-- What characters are written as is read as these characters, up to the closing quote. -/
theorem readText?_flatMap (cs rest : List Char) :
    readText? (cs.flatMap escape ++ '"' :: rest) = some (cs, rest) := by
  induction cs with
  | nil => rfl
  | cons c cs ih =>
    rw [List.flatMap_cons, List.append_assoc, readText?_escape, ih]
    rfl

/-- What characters are written as leaves the closing quote as it is. -/
theorem endsEscaping_flatMap (cs : List Char) : endsEscaping (cs.flatMap escape) = false := by
  induction cs with
  | nil => rfl
  | cons c cs ih => rw [List.flatMap_cons, endsEscaping_escape_append, ih]

/-- What characters are written as has quotes only where they are escaped. The first character is
either in front of the quote or written with it. -/
theorem endsEscaping_of_flatMap_eq {cs before after : List Char}
    (h : cs.flatMap escape = before ++ '"' :: after) : endsEscaping before = true := by
  induction cs generalizing before with
  | nil => simp at h
  | cons c cs ih =>
    rw [List.flatMap_cons, List.append_eq_append_iff] at h
    rcases h with ⟨rest, rfl, hrest⟩ | ⟨rest, hwritten, hrest⟩
    · rw [endsEscaping_escape_append]
      exact ih hrest
    · cases rest with
      | nil =>
        rw [List.append_nil] at hwritten
        rw [← hwritten, ← List.append_nil (escape c), endsEscaping_escape_append]
        exact ih hrest.symm
      | cons d rest =>
        obtain ⟨rfl, -⟩ := List.cons.inj hrest
        exact endsEscaping_of_escape_eq hwritten

/-- What stands between the quotes of a literal that stands for a text. -/
structure LiteralBody (s : String) (body : List Char) : Prop where
  /-- No control character is in it, of the first 32 or of those from 127 to 159. -/
  printed : ∀ c ∈ body, 32 ≤ c.toNat ∧ (c.toNat < 127 ∨ 160 ≤ c.toNat)
  /-- Every quote in it is escaped. -/
  quotes : ∀ before after, body = before ++ '"' :: after → endsEscaping before = true
  /-- The closing quote is not. -/
  closed : endsEscaping body = false
  /-- Whatever follows the literal, the text is read and nothing else. -/
  read : ∀ rest, readLiteral? ('"' :: body ++ '"' :: rest) = some (s, rest)

/-- What a text is written as stands for the text. -/
theorem literalBody_flatMap (s : String) : LiteralBody s (s.toList.flatMap escape) where
  printed := by
    intro d hd
    obtain ⟨c, -, hd⟩ := List.mem_flatMap.mp hd
    have hprinted := isControl_of_mem_escape hd
    simp only [isControl, Bool.or_eq_false_iff, Bool.and_eq_false_iff, decide_eq_false_iff_not]
      at hprinted
    omega
  quotes := fun _ _ h => endsEscaping_of_flatMap_eq h
  closed := endsEscaping_flatMap _
  read := by
    intro rest
    rw [List.cons_append, readLiteral?, readText?_flatMap]
    simp

/-- The literal of a text stands between quotes, without control characters and with all quotes
inside escaped, and it is read as the text, whatever follows it. So no two texts have the same
literal. -/
theorem textLiteral_is_exact :
    (∀ s, ∃ body, textLiteral s = String.ofList ('"' :: (body ++ ['"'])) ∧ LiteralBody s body) ∧
      Function.Injective textLiteral := by
  have hliteral (s : String) : ∃ body, textLiteral s = String.ofList ('"' :: (body ++ ['"'])) ∧
      LiteralBody s body :=
    ⟨_, rfl, literalBody_flatMap s⟩
  refine ⟨hliteral, fun s t hst => ?_⟩
  obtain ⟨body, hs, hbody⟩ := hliteral s
  obtain ⟨body', ht, hbody'⟩ := hliteral t
  have hsame : '"' :: (body ++ ['"']) = '"' :: (body' ++ ['"']) :=
    String.ofList_injective (hs.symm.trans (hst.trans ht))
  have hread := hbody.read []
  rw [List.cons_append, hsame] at hread
  exact congrArg Prod.fst (Option.some.inj (hread.symm.trans (hbody'.read [])))

end Montage.Script
