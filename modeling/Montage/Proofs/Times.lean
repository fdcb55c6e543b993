import Mathlib.Computability.RegularExpressions
import Mathlib.Data.List.TakeWhile
import Montage.Proofs.Numerals
import Montage.Time.Offset

/-!
# The text form of times

Timestamps and offsets are read by dividing a text at its first colon and its first point and by
looking at the bytes of the parts. Here the texts that are read are described by regular
expressions, for all texts: a part whose bytes are digits has no character beyond ASCII, and the
parts cannot hold another colon or point. What is written is always among these texts and denotes
the value that was written.
-/

namespace Montage

open RegularExpression

/-! ## Digits -/

namespace Decimal

/-- The character of a digit has its value. -/
theorem digitValue_digitChar {d : ℕ} (h : d ≤ 9) : digitValue d.digitChar = d := by
  revert d
  decide

/-- The character of a digit is a digit. -/
theorem isDigit_digitChar {d : ℕ} (h : d ≤ 9) : d.digitChar.isDigit = true := by
  revert d
  decide

/-- A digit is the character of a number. -/
theorem exists_digitChar {c : Char} (h : c.isDigit = true) : ∃ d ≤ 9, c = d.digitChar := by
  simp only [Char.isDigit, Bool.and_eq_true, decide_eq_true_eq] at h
  have hcode : 48 ≤ c.toNat ∧ c.toNat ≤ 57 := h
  have hchar : ∀ d ≤ 9, Char.ofNat (48 + d) = d.digitChar := by decide
  refine ⟨c.toNat - 48, by omega, ?_⟩
  rw [← hchar _ (by omega), Nat.add_sub_cancel' hcode.1, Char.ofNat_toNat]

/-- Zeros in front of digits do not change their number. -/
theorem value_replicate_append (k : ℕ) (ds : List Char) :
    value (List.replicate k '0' ++ ds) = value ds := by
  induction k with
  | zero => rfl
  | succ k ih => exact ih

/-- A padded number keeps its value. -/
theorem value_padded (width n : ℕ) : value (padded width n) = n :=
  (value_replicate_append _ _).trans (value_digits n)

/-- A padded number is made of digits. -/
theorem isDigit_of_mem_padded {width n : ℕ} {c : Char} (h : c ∈ padded width n) :
    c.isDigit = true := by
  rcases List.mem_append.mp h with hzero | hdigit
  · rw [List.eq_of_mem_replicate hzero]
    rfl
  · exact isDigit_of_mem_digits hdigit

/-- A number that fits into its places fills them. -/
theorem length_padded {width n : ℕ} (hwidth : 0 < width) (h : n < 10 ^ width) :
    (padded width n).length = width := by
  have hlength : (digits n).length ≤ width := (Nat.length_toDigits_le_iff (by decide) hwidth).mpr h
  simp only [padded, List.length_append, List.length_replicate]
  omega

/-- A digit more makes a number ten times as large. -/
theorem value_concat (ds : List Char) (c : Char) :
    value (ds ++ [c]) = 10 * value ds + digitValue c := by
  simp [value, valueFrom]

/-- Digits denote a number below the power of ten that they can reach. -/
theorem value_lt {ds : List Char} (h : ∀ c ∈ ds, c.isDigit = true) : value ds < 10 ^ ds.length := by
  induction ds using List.reverseRecOn with
  | nil => decide
  | append_singleton ds c ih =>
    obtain ⟨hds, hc⟩ := List.forall_mem_append.mp h
    obtain ⟨d, hd, rfl⟩ := exists_digitChar (hc c (List.mem_singleton_self c))
    have hlt := ih hds
    rw [value_concat, digitValue_digitChar hd, List.length_append, List.length_singleton, pow_succ]
    omega

end Decimal

/-! ## Parts of a text -/

namespace Timestamp

open Decimal

variable {cs before after : List Char} {separator : Char}

/-- A text is divided at the first occurrence of a character. -/
theorem splitOnce?_eq_some_iff :
    splitOnce? separator cs = some (before, after) ↔
      cs = before ++ separator :: after ∧ separator ∉ before := by
  unfold splitOnce?
  constructor
  · split
    · simp
    · rename_i first rest hdrop
      intro h
      obtain ⟨rfl, rfl⟩ := Prod.mk.inj (Option.some.inj h)
      have hfirst : first = separator := by
        have hnot := List.head_dropWhile_not (· != separator) (l := cs) (by simp [hdrop])
        simpa [hdrop] using hnot
      subst hfirst
      constructor
      · rw [← hdrop, List.takeWhile_append_dropWhile]
      · intro hmem
        simpa using List.mem_takeWhile_imp hmem
  · rintro ⟨rfl, hbefore⟩
    have hkept : ∀ c ∈ before, (c != separator) = true := by
      intro c hc
      exact bne_iff_ne.mpr fun heq => hbefore (heq ▸ hc)
    simp [List.dropWhile_append_of_pos hkept, List.takeWhile_append_of_pos hkept]

/-- A text without the character is not divided. -/
theorem splitOnce?_eq_none_iff : splitOnce? separator cs = none ↔ separator ∉ cs := by
  constructor
  · intro hnone hmem
    obtain ⟨before, after, rfl, hbefore⟩ := List.eq_append_cons_of_mem hmem
    rw [splitOnce?_eq_some_iff.mpr ⟨rfl, hbefore⟩] at hnone
    simp at hnone
  · intro hmem
    refine Option.eq_none_iff_forall_ne_some.mpr fun ⟨before, after⟩ hsome => hmem ?_
    rw [(splitOnce?_eq_some_iff.mp hsome).1]
    simp

/-- The bytes of a character are digits only if the character is one. -/
theorem all_isDigitByte_utf8EncodeChar (c : Char) :
    (String.utf8EncodeChar c).all isDigitByte = c.isDigit := by
  have hdigit : c.isDigit = (decide (48 ≤ c.toNat) && decide (c.toNat ≤ 57)) := rfl
  have hbyte {n : ℕ} (hn : n < 256) :
      isDigitByte (UInt8.ofNat n) = (decide (48 ≤ n) && decide (n ≤ 57)) := by
    have hcode : (UInt8.ofNat n).toNat = n := by simp [Nat.mod_eq_of_lt hn]
    simp only [isDigitByte, UInt8.le_iff_toNat_le, hcode]
    rfl
  -- Beyond ASCII all bytes of a character are 128 at least.
  have hlead {n : ℕ} (hlow : 128 ≤ n) (hhigh : n < 256) (bs : List UInt8) :
      (UInt8.ofNat n :: bs).all isDigitByte = false := by
    rw [List.all_cons, hbyte hhigh]
    simp
    omega
  rw [hdigit]
  unfold String.utf8EncodeChar
  dsimp only
  change (if c.toNat ≤ 127 then [UInt8.ofNat c.toNat] else _).all isDigitByte = _
  by_cases hascii : c.toNat ≤ 127
  · rw [if_pos hascii, List.all_cons, hbyte (by omega), List.all_nil, Bool.and_true]
  · have hnot : (decide (48 ≤ c.toNat) && decide (c.toNat ≤ 57)) = false := by
      simp
      omega
    rw [if_neg hascii, hnot]
    split
    · exact hlead (by omega) (by omega) _
    · split
      · exact hlead (by omega) (by omega) _
      · exact hlead (by omega) (by omega) _

/-- The bytes of a text are digits only if its characters are. -/
theorem all_isDigitByte_bytes (cs : List Char) :
    (bytes cs).all isDigitByte = cs.all Char.isDigit := by
  rw [bytes, List.all_flatMap]
  simp only [all_isDigitByte_utf8EncodeChar]

/-- Each digit is one byte. -/
theorem length_bytes (h : ∀ c ∈ cs, c.isDigit = true) : (bytes cs).length = cs.length := by
  induction cs with
  | nil => rfl
  | cons c cs ih =>
    obtain ⟨hc, hcs⟩ := List.forall_mem_cons.mp h
    have hsize : c.utf8Size = 1 := by
      simp only [Char.isDigit, Bool.and_eq_true, decide_eq_true_eq] at hc
      exact Char.utf8Size_eq_one_iff.mpr (UInt32.le_trans hc.2 (by decide))
    have hbytes : bytes (c :: cs) = String.utf8EncodeChar c ++ bytes cs := rfl
    rw [hbytes, List.length_append, String.length_utf8EncodeChar, hsize, ih hcs, List.length_cons,
      Nat.add_comm]

/-- Counting bytes is counting characters where there are only digits. -/
theorem isDigits_iff {least most : ℕ} :
    isDigits least most cs = true ↔
      (least ≤ cs.length ∧ cs.length ≤ most) ∧ ∀ c ∈ cs, c.isDigit = true := by
  simp only [isDigits, all_isDigitByte_bytes, Bool.and_eq_true, decide_eq_true_eq,
    List.all_eq_true]
  constructor
  · rintro ⟨hlength, hdigits⟩
    rw [length_bytes hdigits] at hlength
    exact ⟨hlength, hdigits⟩
  · rintro ⟨hlength, hdigits⟩
    rw [length_bytes hdigits]
    exact ⟨hlength, hdigits⟩

/-- A number below a bound is kept. -/
theorem below?_eq_some_iff {bound n : ℕ} {m : Fin bound} : below? bound n = some m ↔ n = m.val := by
  unfold below?
  split
  · simp [Fin.ext_iff]
  · rename_i hn
    simp only [reduceCtorEq, false_iff]
    rintro rfl
    exact hn m.isLt

/-- A field is read from two digits. -/
theorem field?_eq_some_iff {m : Fin 60} :
    field? cs = some m ↔ isDigits 2 2 cs = true ∧ value cs = m.val := by
  simp [field?, below?_eq_some_iff]

/-- A fraction is read from one to three digits. -/
theorem fraction?_eq_some_iff {m : Fin 1000} :
    fraction? cs = some m ↔ isDigits 1 3 cs = true ∧ value (cs.rightpad 3 '0') = m.val := by
  simp [fraction?, below?_eq_some_iff]

/-- A character that is no digit is not among digits. -/
theorem not_mem_of_isDigits {least most : ℕ} (h : isDigits least most cs = true) {c : Char}
    (hc : c.isDigit = false) : c ∉ cs := by
  intro hmem
  rw [(isDigits_iff.mp h).2 c hmem] at hc
  exact Bool.noConfusion hc

/-! ## Timestamps -/

/-- The parts of a text that is read as a timestamp. -/
inductive Spelled : List Char → Timestamp → Prop
  | whole {t : Timestamp} {mm ss : List Char} (hminutes : field? mm = some t.minutes)
      (hseconds : field? ss = some t.seconds) (hmillis : t.millis.val = 0) :
    Spelled (mm ++ ':' :: ss) t
  | fraction {t : Timestamp} {mm ss digits : List Char} (hminutes : field? mm = some t.minutes)
      (hseconds : field? ss = some t.seconds) (hmillis : fraction? digits = some t.millis) :
    Spelled (mm ++ ':' :: (ss ++ '.' :: digits)) t

/-- Dividing seconds from their fraction finds the parts of a text. -/
theorem secondsAndMillis?_eq_some_iff {seconds : Fin 60} {millis : Fin 1000} :
    secondsAndMillis? cs = some (seconds, millis) ↔
      (field? cs = some seconds ∧ millis.val = 0) ∨
        ∃ ss digits, cs = ss ++ '.' :: digits ∧ field? ss = some seconds ∧
          fraction? digits = some millis := by
  have hpoint {ss : List Char} {m : Fin 60} (h : field? ss = some m) : '.' ∉ ss :=
    not_mem_of_isDigits (field?_eq_some_iff.mp h).1 rfl
  unfold secondsAndMillis?
  cases hsplit : splitOnce? '.' cs with
  | none =>
    have hnone := splitOnce?_eq_none_iff.mp hsplit
    constructor
    · intro h
      obtain ⟨m, hm, hpair⟩ := Option.bind_eq_some_iff.mp h
      obtain ⟨rfl, rfl⟩ := Prod.mk.inj (Option.some.inj hpair)
      exact Or.inl ⟨hm, rfl⟩
    · rintro (⟨hseconds, hmillis⟩ | ⟨ss, digits, rfl, -, -⟩)
      · have hzero : millis = 0 := Fin.ext hmillis
        simp [hseconds, hzero]
      · simp at hnone
  | some parts =>
    obtain ⟨before, after⟩ := parts
    obtain ⟨rfl, hbefore⟩ := splitOnce?_eq_some_iff.mp hsplit
    constructor
    · intro h
      obtain ⟨m, hm, h⟩ := Option.bind_eq_some_iff.mp h
      obtain ⟨n, hn, hpair⟩ := Option.bind_eq_some_iff.mp h
      obtain ⟨rfl, rfl⟩ := Prod.mk.inj (Option.some.inj hpair)
      exact Or.inr ⟨before, after, rfl, hm, hn⟩
    · rintro (⟨hseconds, -⟩ | ⟨ss, digits, heq, hseconds, hmillis⟩)
      · exact absurd (by simp) (hpoint hseconds)
      · have hparts := splitOnce?_eq_some_iff.mpr ⟨heq, hpoint hseconds⟩
        obtain ⟨rfl, rfl⟩ := Prod.mk.inj (Option.some.inj (hsplit.symm.trans hparts))
        simp [hseconds, hmillis]

/-- Dividing a text finds the parts that it has. -/
theorem ofChars?_eq_some_iff {t : Timestamp} : ofChars? cs = some t ↔ Spelled cs t := by
  obtain ⟨minutes, seconds, millis⟩ := t
  constructor
  · intro h
    obtain ⟨⟨mm, rest⟩, hsplit, h⟩ := Option.bind_eq_some_iff.mp h
    obtain ⟨m, hm, h⟩ := Option.bind_eq_some_iff.mp h
    obtain ⟨⟨s, n⟩, hrest, h⟩ := Option.bind_eq_some_iff.mp h
    obtain ⟨rfl, rfl, rfl⟩ := Timestamp.mk.inj (Option.some.inj h)
    obtain ⟨rfl, -⟩ := splitOnce?_eq_some_iff.mp hsplit
    rcases secondsAndMillis?_eq_some_iff.mp hrest with ⟨hs, hn⟩ | ⟨ss, digits, rfl, hs, hn⟩
    · exact .whole hm hs hn
    · exact .fraction hm hs hn
  · have hread {mm rest : List Char} (hminutes : field? mm = some minutes)
        (hrest : secondsAndMillis? rest = some (seconds, millis)) :
        ofChars? (mm ++ ':' :: rest) = some ⟨minutes, seconds, millis⟩ := by
      have hcolon : ':' ∉ mm := not_mem_of_isDigits (field?_eq_some_iff.mp hminutes).1 rfl
      simp [ofChars?, splitOnce?_eq_some_iff.mpr ⟨rfl, hcolon⟩, hminutes, hrest]
    rintro (⟨hminutes, hseconds, hmillis⟩ | ⟨hminutes, hseconds, hmillis⟩)
    · exact hread hminutes (secondsAndMillis?_eq_some_iff.mpr (Or.inl ⟨hseconds, hmillis⟩))
    · exact hread hminutes
        (secondsAndMillis?_eq_some_iff.mpr (Or.inr ⟨_, _, rfl, hseconds, hmillis⟩))

/-- A number below sixty that is written with two digits is read back. -/
theorem field?_padded (m : Fin 60) : field? (padded 2 m.val) = some m := by
  have hm := m.isLt
  have hlength : (padded 2 m.val).length = 2 := length_padded (by decide) (by omega)
  rw [field?_eq_some_iff, isDigits_iff, hlength]
  exact ⟨⟨by decide, fun c => isDigit_of_mem_padded⟩, value_padded 2 m.val⟩

/-- Milliseconds that are written with three digits are read back. -/
theorem fraction?_padded (m : Fin 1000) : fraction? (padded 3 m.val) = some m := by
  have hm := m.isLt
  have hlength : (padded 3 m.val).length = 3 := length_padded (by decide) (by omega)
  rw [fraction?_eq_some_iff, isDigits_iff, List.rightpad, hlength]
  refine ⟨⟨by decide, fun c => isDigit_of_mem_padded⟩, ?_⟩
  rw [Nat.sub_self, List.replicate_zero, List.append_nil, value_padded]

/-- A timestamp is read back from its text. -/
theorem ofChars?_toChars (t : Timestamp) : ofChars? t.toChars = some t := by
  rw [ofChars?_eq_some_iff, toChars]
  split_ifs with hmillis
  · exact .whole (field?_padded t.minutes) (field?_padded t.seconds) hmillis
  · rw [List.append_assoc, List.cons_append]
    exact .fraction (field?_padded t.minutes) (field?_padded t.seconds) (fraction?_padded t.millis)

end Timestamp

/-- An offset is read back from its text. -/
theorem Offset.ofChars?_toChars (o : Offset) : ofChars? o.toChars = some o := by
  obtain ⟨sign, magnitude⟩ := o
  cases sign <;> simp [toChars, Sign.symbol, ofChars?, magnitude.ofChars?_toChars]

/-! ## Grammars -/

/-- One of the digits up to a last one. -/
def digitUpTo (last : ℕ) : RegularExpression Char :=
  (List.range (last + 1)).foldr (fun d r => char d.digitChar + r) 0

/-- Two digits below sixty: `[0-5][0-9]`. -/
def fieldGrammar : RegularExpression Char :=
  digitUpTo 5 * digitUpTo 9

/-- One to three digits: `[0-9]{1,3}`. -/
def fractionGrammar : RegularExpression Char :=
  digitUpTo 9 * (1 + digitUpTo 9 * (1 + digitUpTo 9))

/-- Minutes and seconds with an optional fraction: `[0-5][0-9]:[0-5][0-9](\.[0-9]{1,3})?`. -/
def Timestamp.grammar : RegularExpression Char :=
  fieldGrammar * (char ':' * (fieldGrammar * (1 + char '.' * fractionGrammar)))

/-- A sign and a timestamp. -/
def Offset.grammar : RegularExpression Char :=
  (char '+' + char '-') * Timestamp.grammar

section Grammars

open Decimal Timestamp

variable {cs : List Char} {r : RegularExpression Char}

/-- An optional part is there or not. -/
theorem mem_matches'_optional : cs ∈ (1 + r).matches' ↔ cs = [] ∨ cs ∈ r.matches' :=
  Iff.rfl

/-- A character is followed by what matches the rest. -/
theorem mem_matches'_char_mul {c : Char} :
    cs ∈ (char c * r).matches' ↔ ∃ rest ∈ r.matches', cs = c :: rest := by
  rw [matches'_mul, Language.mem_mul]
  constructor
  · rintro ⟨_, rfl, rest, hrest, rfl⟩
    exact ⟨rest, hrest, rfl⟩
  · rintro ⟨rest, hrest, rfl⟩
    exact ⟨[c], rfl, rest, hrest, rfl⟩

/-- A digit up to another one is its character. -/
theorem mem_matches'_digitUpTo {last : ℕ} :
    cs ∈ (digitUpTo last).matches' ↔ ∃ d ≤ last, cs = [d.digitChar] := by
  have hall (ds : List ℕ) :
      cs ∈ (ds.foldr (fun d r => char d.digitChar + r) 0).matches' ↔
        ∃ d ∈ ds, cs = [d.digitChar] := by
    induction ds with
    | nil => simp
    | cons d ds ih =>
      rw [List.foldr_cons, matches'_add, Language.mem_add, ih, List.exists_mem_cons_iff]
      exact Iff.rfl
  simp only [digitUpTo, hall, List.mem_range, Nat.lt_succ_iff]

/-- A digit is followed by what matches the rest. -/
theorem mem_matches'_digit_mul :
    cs ∈ (digitUpTo 9 * r).matches' ↔
      ∃ c rest, cs = c :: rest ∧ c.isDigit = true ∧ rest ∈ r.matches' := by
  rw [matches'_mul, Language.mem_mul]
  constructor
  · rintro ⟨_, hdigit, rest, hrest, rfl⟩
    obtain ⟨d, hd, rfl⟩ := mem_matches'_digitUpTo.mp hdigit
    exact ⟨d.digitChar, rest, rfl, isDigit_digitChar hd, hrest⟩
  · rintro ⟨c, rest, rfl, hc, hrest⟩
    obtain ⟨d, hd, rfl⟩ := exists_digitChar hc
    exact ⟨[d.digitChar], mem_matches'_digitUpTo.mpr ⟨d, hd, rfl⟩, rest, hrest, rfl⟩

/-- The texts of fields are those that are read as fields. -/
theorem mem_fieldGrammar : cs ∈ fieldGrammar.matches' ↔ ∃ m, field? cs = some m := by
  rw [fieldGrammar, matches'_mul, Language.mem_mul]
  constructor
  · rintro ⟨_, htens, _, hunits, rfl⟩
    obtain ⟨a, ha, rfl⟩ := mem_matches'_digitUpTo.mp htens
    obtain ⟨b, hb, rfl⟩ := mem_matches'_digitUpTo.mp hunits
    refine ⟨⟨10 * a + b, by omega⟩, field?_eq_some_iff.mpr ⟨isDigits_iff.mpr ?_, ?_⟩⟩
    · simp [isDigit_digitChar (show a ≤ 9 by omega), isDigit_digitChar hb]
    · simp [value, valueFrom, digitValue_digitChar (show a ≤ 9 by omega), digitValue_digitChar hb]
  · rintro ⟨m, hm⟩
    obtain ⟨hdigits, hvalue⟩ := field?_eq_some_iff.mp hm
    obtain ⟨hlength, hdigits⟩ := isDigits_iff.mp hdigits
    obtain ⟨x, y, rfl⟩ := List.length_eq_two.mp (Nat.le_antisymm hlength.2 hlength.1)
    obtain ⟨a, ha, rfl⟩ := exists_digitChar (hdigits x (by simp))
    obtain ⟨b, hb, rfl⟩ := exists_digitChar (hdigits y (by simp))
    have htens : a ≤ 5 := by
      have hm := m.isLt
      simp only [value, valueFrom, List.foldl_cons, List.foldl_nil, digitValue_digitChar ha,
        digitValue_digitChar hb] at hvalue
      omega
    exact ⟨_, mem_matches'_digitUpTo.mpr ⟨a, htens, rfl⟩, _,
      mem_matches'_digitUpTo.mpr ⟨b, hb, rfl⟩, rfl⟩

/-- One to three characters that are digits match the grammar of fractions. -/
theorem mem_fractionGrammar_iff_isDigits :
    cs ∈ fractionGrammar.matches' ↔ isDigits 1 3 cs = true := by
  simp only [fractionGrammar, mem_matches'_digit_mul, mem_matches'_optional,
    mem_matches'_digitUpTo, isDigits_iff]
  constructor
  · rintro ⟨a, _, rfl, ha, rfl | ⟨b, _, rfl, hb, rfl | ⟨d, hd, rfl⟩⟩⟩
    · simp [ha]
    · simp [ha, hb]
    · simp [ha, hb, isDigit_digitChar hd]
  · rintro ⟨hlength, hdigits⟩
    -- A fourth digit would be too many.
    rcases cs with _ | ⟨a, _ | ⟨b, _ | ⟨c, _ | ⟨d, rest⟩⟩⟩⟩
    · simp at hlength
    · exact ⟨a, [], rfl, hdigits a (by simp), Or.inl rfl⟩
    · exact ⟨a, [b], rfl, hdigits a (by simp), Or.inr ⟨b, [], rfl, hdigits b (by simp), Or.inl rfl⟩⟩
    · obtain ⟨d, hd, rfl⟩ := exists_digitChar (hdigits c (by simp))
      exact ⟨a, _, rfl, hdigits a (by simp),
        Or.inr ⟨b, _, rfl, hdigits b (by simp), Or.inr ⟨d, hd, rfl⟩⟩⟩
    · simp only [List.length_cons] at hlength
      omega

/-- The texts of fractions are those that are read as fractions. -/
theorem mem_fractionGrammar : cs ∈ fractionGrammar.matches' ↔ ∃ m, fraction? cs = some m := by
  rw [mem_fractionGrammar_iff_isDigits]
  constructor
  · intro h
    obtain ⟨hlength, hdigits⟩ := isDigits_iff.mp h
    have hfilled : ∀ c ∈ cs.rightpad 3 '0', c.isDigit = true := by
      intro c hc
      rcases List.mem_append.mp hc with hmem | hzero
      · exact hdigits c hmem
      · rw [List.eq_of_mem_replicate hzero]
        rfl
    have hthree : (cs.rightpad 3 '0').length = 3 := by
      rw [List.length_rightpad]
      omega
    have hbound := value_lt hfilled
    rw [hthree] at hbound
    exact ⟨⟨_, hbound⟩, fraction?_eq_some_iff.mpr ⟨h, rfl⟩⟩
  · rintro ⟨m, hm⟩
    exact (fraction?_eq_some_iff.mp hm).1

/-- The parts of a text that matches the grammar of timestamps. -/
theorem Timestamp.mem_grammar_iff_parts :
    cs ∈ grammar.matches' ↔ ∃ mm ∈ fieldGrammar.matches', ∃ ss ∈ fieldGrammar.matches',
      cs = mm ++ ':' :: ss ∨
        ∃ digits ∈ fractionGrammar.matches', cs = mm ++ ':' :: (ss ++ '.' :: digits) := by
  rw [grammar, matches'_mul, Language.mem_mul]
  constructor
  · rintro ⟨mm, hmm, _, hrest, rfl⟩
    obtain ⟨_, hseconds, rfl⟩ := mem_matches'_char_mul.mp hrest
    obtain ⟨ss, hss, tail, htail, rfl⟩ := Language.mem_mul.mp hseconds
    refine ⟨mm, hmm, ss, hss, ?_⟩
    rcases mem_matches'_optional.mp htail with rfl | hfraction
    · exact Or.inl (by rw [List.append_nil])
    · obtain ⟨digits, hdigits, rfl⟩ := mem_matches'_char_mul.mp hfraction
      exact Or.inr ⟨digits, hdigits, rfl⟩
  · rintro ⟨mm, hmm, ss, hss, rfl | ⟨digits, hdigits, rfl⟩⟩
    · refine ⟨mm, hmm, _, mem_matches'_char_mul.mpr ⟨ss, ?_, rfl⟩, rfl⟩
      exact Language.mem_mul.mpr
        ⟨ss, hss, [], mem_matches'_optional.mpr (Or.inl rfl), List.append_nil ss⟩
    · refine ⟨mm, hmm, _, mem_matches'_char_mul.mpr ⟨_, ?_, rfl⟩, rfl⟩
      have hfraction : '.' :: digits ∈ (char '.' * fractionGrammar).matches' :=
        mem_matches'_char_mul.mpr ⟨digits, hdigits, rfl⟩
      exact Language.mem_mul.mpr
        ⟨ss, hss, _, mem_matches'_optional.mpr (Or.inr hfraction), rfl⟩

/-- The texts of timestamps are those that are read as timestamps. -/
theorem Timestamp.mem_grammar : cs ∈ grammar.matches' ↔ ∃ t, ofChars? cs = some t := by
  simp only [ofChars?_eq_some_iff, mem_grammar_iff_parts, mem_fieldGrammar, mem_fractionGrammar]
  constructor
  · rintro ⟨mm, ⟨minutes, hminutes⟩, ss, ⟨seconds, hseconds⟩,
      rfl | ⟨digits, ⟨millis, hmillis⟩, rfl⟩⟩
    · exact ⟨⟨minutes, seconds, 0⟩, .whole hminutes hseconds rfl⟩
    · exact ⟨⟨minutes, seconds, millis⟩, .fraction hminutes hseconds hmillis⟩
  · rintro ⟨t, ⟨hminutes, hseconds, -⟩ | ⟨hminutes, hseconds, hmillis⟩⟩
    · exact ⟨_, ⟨_, hminutes⟩, _, ⟨_, hseconds⟩, Or.inl rfl⟩
    · exact ⟨_, ⟨_, hminutes⟩, _, ⟨_, hseconds⟩, Or.inr ⟨_, ⟨_, hmillis⟩, rfl⟩⟩

/-- An offset is read from its sign and a timestamp. -/
theorem Offset.ofChars?_eq_some_iff {o : Offset} :
    ofChars? cs = some o ↔
      ∃ rest, cs = o.sign.symbol :: rest ∧ Timestamp.ofChars? rest = some o.magnitude := by
  obtain ⟨sign, magnitude⟩ := o
  constructor
  · intro h
    unfold ofChars? at h
    split at h
    · obtain ⟨t, ht, heq⟩ := Option.map_eq_some_iff.mp h
      obtain ⟨rfl, rfl⟩ := Offset.mk.inj heq
      exact ⟨_, rfl, ht⟩
    · obtain ⟨t, ht, heq⟩ := Option.map_eq_some_iff.mp h
      obtain ⟨rfl, rfl⟩ := Offset.mk.inj heq
      exact ⟨_, rfl, ht⟩
    · simp at h
  · rintro ⟨rest, rfl, hrest⟩
    cases sign <;> simp [Sign.symbol, ofChars?, hrest]

/-- The texts of offsets are those that are read as offsets. -/
theorem Offset.mem_grammar : cs ∈ grammar.matches' ↔ ∃ o, ofChars? cs = some o := by
  have hsigned : cs ∈ grammar.matches' ↔
      ∃ sign : Sign, ∃ rest ∈ Timestamp.grammar.matches', cs = sign.symbol :: rest := by
    rw [grammar, matches'_mul, matches'_add, add_mul, Language.mem_add, ← matches'_mul,
      ← matches'_mul, mem_matches'_char_mul, mem_matches'_char_mul]
    constructor
    · rintro (h | h)
      · exact ⟨.plus, h⟩
      · exact ⟨.minus, h⟩
    · rintro ⟨_ | _, h⟩
      · exact Or.inl h
      · exact Or.inr h
  simp only [hsigned, Timestamp.mem_grammar, ofChars?_eq_some_iff]
  constructor
  · rintro ⟨sign, rest, ⟨t, ht⟩, rfl⟩
    exact ⟨⟨sign, t⟩, rest, rfl, ht⟩
  · rintro ⟨o, rest, rfl, ht⟩
    exact ⟨o.sign, rest, ⟨o.magnitude, ht⟩, rfl⟩

end Grammars

/-! ## Reading and writing -/

/-- What a text denotes as a timestamp, by the places of its characters. -/
structure Timestamp.Denotes (cs : List Char) (t : Timestamp) : Prop where
  minutes : t.minutes.val = Decimal.value (cs.take 2)
  seconds : t.seconds.val = Decimal.value ((cs.drop 3).take 2)
  millis : t.millis.val = Decimal.value ((cs.drop 6).rightpad 3 '0')
  bounds : t.minutes.val < 60 ∧ t.seconds.val < 60 ∧ t.millis.val < 1000

/-- What a text denotes as an offset. -/
structure Offset.Denotes (cs : List Char) (o : Offset) : Prop where
  sign : cs.head? = some o.sign.symbol
  magnitude : Timestamp.Denotes cs.tail o.magnitude

/-- A text form of values: a grammar, what its texts denote, the refusal of all other texts, and a
text for each value that is read back. -/
structure TextForm {α : Type} (parse : String → Except Error α) (text : α → String)
    (grammar : RegularExpression Char) (Denotes : List Char → α → Prop)
    (refusal : String → Error) : Prop where
  accepts (s : String) : (∃ a, parse s = .ok a) ↔ s.toList ∈ grammar.matches'
  denotes {s : String} {a : α} (h : parse s = .ok a) : Denotes s.toList a
  refuses {s : String} (h : s.toList ∉ grammar.matches') : parse s = .error (refusal s)
  rereads (a : α) : parse (text a) = .ok a

/-- A reader of characters that reports what it cannot read gives a text form. -/
theorem TextForm.of_reader {α : Type} {parse : String → Except Error α} {text : α → String}
    {grammar : RegularExpression Char} {Denotes : List Char → α → Prop} {refusal : String → Error}
    {ofChars? : List Char → Option α} {toChars : α → List Char}
    (hparse : ∀ s, parse s = (ofChars? s.toList).elim (.error (refusal s)) .ok)
    (htext : ∀ a, text a = String.ofList (toChars a))
    (hgrammar : ∀ cs, cs ∈ grammar.matches' ↔ ∃ a, ofChars? cs = some a)
    (hdenotes : ∀ cs a, ofChars? cs = some a → Denotes cs a)
    (hreread : ∀ a, ofChars? (toChars a) = some a) :
    TextForm parse text grammar Denotes refusal := by
  have hok (s : String) (a : α) : parse s = .ok a ↔ ofChars? s.toList = some a := by
    rw [hparse]
    cases ofChars? s.toList <;> simp
  refine ⟨fun s => ?_, fun h => hdenotes _ _ ((hok _ _).mp h), fun {s} h => ?_, fun a => ?_⟩
  · simp only [hok, hgrammar]
  · have hnone : ofChars? s.toList = none :=
      Option.eq_none_iff_forall_ne_some.mpr fun a ha => h ((hgrammar _).mpr ⟨a, ha⟩)
    rw [hparse, hnone, Option.elim_none]
  · rw [hok, htext, String.toList_ofList, hreread]

/-- The parts of a text stand at their places. -/
theorem Timestamp.Spelled.denotes {cs : List Char} {t : Timestamp} (h : Spelled cs t) :
    Denotes cs t := by
  have hbounds := And.intro t.minutes.isLt (And.intro t.seconds.isLt t.millis.isLt)
  have hfield {ss : List Char} {m : Fin 60} (h : field? ss = some m) :
      ∃ a b, ss = [a, b] ∧ Decimal.value [a, b] = m.val := by
    obtain ⟨hdigits, hvalue⟩ := field?_eq_some_iff.mp h
    obtain ⟨⟨hleast, hmost⟩, -⟩ := isDigits_iff.mp hdigits
    obtain ⟨a, b, rfl⟩ := List.length_eq_two.mp (Nat.le_antisymm hmost hleast)
    exact ⟨a, b, rfl, hvalue⟩
  cases h with
  | whole hminutes hseconds hmillis =>
    obtain ⟨a, b, rfl, hm⟩ := hfield hminutes
    obtain ⟨c, d, rfl, hs⟩ := hfield hseconds
    exact ⟨hm.symm, hs.symm, hmillis, hbounds⟩
  | fraction hminutes hseconds hmillis =>
    obtain ⟨a, b, rfl, hm⟩ := hfield hminutes
    obtain ⟨c, d, rfl, hs⟩ := hfield hseconds
    exact ⟨hm.symm, hs.symm, (fraction?_eq_some_iff.mp hmillis).2.symm, hbounds⟩

/-- A text is read as a timestamp exactly if it matches `[0-5][0-9]:[0-5][0-9](\.[0-9]{1,3})?`, and
as an offset exactly if it is such a text behind a sign. It denotes the numbers at its places, a
fraction filled up with zeros to milliseconds; every other text is refused by name. What is written
for a timestamp or an offset is read as the same. -/
theorem times_have_text_forms :
    TextForm Timestamp.parse Timestamp.text Timestamp.grammar Timestamp.Denotes
      .invalidTimestamp ∧
    TextForm Offset.parse Offset.text Offset.grammar Offset.Denotes .invalidOffset := by
  constructor
  · refine .of_reader (fun s => ?_) (fun t => rfl) (fun cs => Timestamp.mem_grammar)
      (fun cs t h => ?_) Timestamp.ofChars?_toChars
    · unfold Timestamp.parse
      cases Timestamp.ofChars? s.toList <;> rfl
    · exact (Timestamp.ofChars?_eq_some_iff.mp h).denotes
  · refine .of_reader (fun s => ?_) (fun o => rfl) (fun cs => Offset.mem_grammar)
      (fun cs o h => ?_) Offset.ofChars?_toChars
    · unfold Offset.parse
      cases Offset.ofChars? s.toList <;> rfl
    · obtain ⟨rest, rfl, hrest⟩ := Offset.ofChars?_eq_some_iff.mp h
      exact ⟨rfl, (Timestamp.ofChars?_eq_some_iff.mp hrest).denotes⟩

-- A digit of another script is no digit here, and a second point is not read over.
example : Timestamp.parse "00:0٣" = .error (.invalidTimestamp "00:0٣") ∧
    Timestamp.parse "00:02.5." = .error (.invalidTimestamp "00:02.5.") := by decide

end Montage
