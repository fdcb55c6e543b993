import Mathlib.Data.List.Basic
import Montage.Proofs.Numerals

/-!
# Texts of trees

The text of a JSON tree, compact or pretty, is read back as the tree. Two things may change: a
number is read as the double its digits name, and a mark, which has no text of its own, is null.
`reread` says what becomes of a tree. The reader is followed through the text with what comes
behind a value left open, so that the parts of a container can be put together.
-/

namespace Montage.Json

open Decimal

/-! ## Strings -/

/-- The four digits of an escaped control character name it. -/
theorem codeUnit?_control {n : ℕ} (h : n < 32) :
    codeUnit? '0' '0' (hexDigit (n / 16)) (hexDigit (n % 16)) = some n := by
  have hall : ∀ n < 32, codeUnit? '0' '0' (hexDigit (n / 16)) (hexDigit (n % 16)) = some n := by
    decide
  exact hall n h

/-- An escaped character is read as one piece. -/
theorem pieces?_escape (c : Char) (cs : List Char) :
    pieces? (escape c ++ cs) = (pieces? cs).map fun p => (Piece.whole c :: p.1, p.2) := by
  unfold escape
  split_ifs with hquote hslash hline hreturn htab hback hfeed hcontrol
  · subst hquote
    rfl
  · subst hslash
    rfl
  · subst hline
    rfl
  · subst hreturn
    rfl
  · subst htab
    rfl
  · have : c = Char.ofNat 8 := by
      rw [← hback, Char.ofNat_toNat]
    subst this
    rfl
  · have : c = Char.ofNat 12 := by
      rw [← hfeed, Char.ofNat_toNat]
    subst this
    rfl
  · have hwhole : Piece.ofUnit c.toNat = .whole c := by
      have hhigh : isHighHalf c.toNat = false := by
        simp [isHighHalf]
        omega
      have hlow : isLowHalf c.toNat = false := by
        simp [isLowHalf]
        omega
      simp [Piece.ofUnit, hhigh, hlow, Char.ofNat_toNat]
    simp only [List.cons_append, List.nil_append, pieces?, codeUnit?_control hcontrol, hwhole]
  · simp [pieces?, hslash, hcontrol]

/-- Reading the pieces of a written string gives its characters. -/
theorem pieces?_flatMap (cs rest : List Char) :
    pieces? (cs.flatMap escape ++ '"' :: rest) = some (cs.map Piece.whole, rest) := by
  induction cs with
  | nil => rfl
  | cons c cs ih =>
    rw [List.flatMap_cons, List.append_assoc, pieces?_escape, ih]
    rfl

/-- Pieces that are whole characters make up a string. -/
theorem joinPieces?_map (cs : List Char) : joinPieces? (cs.map Piece.whole) = some cs := by
  induction cs with
  | nil => rfl
  | cons c cs ih =>
    rw [List.map_cons, joinPieces?, ih]
    rfl

/-- A written string is read back. -/
theorem string?_flatMap (s : String) (rest : List Char) :
    string? (s.toList.flatMap escape ++ '"' :: rest) = some (some s, rest) := by
  simp [string?, pieces?_flatMap, joinPieces?_map]

/-! ## Blanks -/

/-- A gap consists of blanks. -/
theorem isBlank_of_mem_gap {style : Style} {level : ℕ} {c : Char} (h : c ∈ style.gap level) :
    isBlank c = true := by
  cases style with
  | compact => exact absurd h (by simp [Style.gap])
  | pretty =>
    rw [Style.gap, List.mem_cons] at h
    rcases h with rfl | h
    · rfl
    · rw [List.eq_of_mem_replicate h]
      rfl

/-- Blanks in front of a text are skipped. -/
theorem skipBlanks_append {blanks cs : List Char} (h : ∀ c ∈ blanks, isBlank c = true) :
    skipBlanks (blanks ++ cs) = skipBlanks cs :=
  List.dropWhile_append_of_pos h

/-- A text that starts without a blank is left as it is. -/
theorem skipBlanks_cons {c : Char} {cs : List Char} (h : isBlank c = false) :
    skipBlanks (c :: cs) = c :: cs := by
  simp [skipBlanks, h]

/-! ## Leaves -/

/-- A text that starts like a leaf and, unless a number goes on behind it, is read as one. -/
structure LeafText (cs : List Char) (v : Json) : Prop where
  head : ∃ c rest, cs = c :: rest ∧ isBlank c = false ∧ c ≠ '"' ∧ c ≠ '[' ∧ c ≠ '\x7b' ∧ c ≠ ']'
  leaf : ∀ rest, EndsNumber rest → leaf? (cs ++ rest) = some (v, rest)

/-- The text of null. -/
theorem leafText_null : LeafText "null".toList .null where
  head := ⟨'n', ['u', 'l', 'l'], rfl, rfl, by decide⟩
  leaf _ _ := rfl

/-- The text of a truth value. -/
theorem leafText_bool (b : Bool) : LeafText (if b then "true" else "false").toList (.bool b) := by
  cases b with
  | true => exact ⟨⟨'t', ['r', 'u', 'e'], rfl, rfl, by decide⟩, fun _ _ => rfl⟩
  | false =>
    exact ⟨⟨'f', ['a', 'l', 's', 'e'], rfl, rfl, by decide⟩, fun _ _ => rfl⟩

/-- A sign or a digit starts a number. -/
theorem leaf?_eq_number? {c : Char} (h : c = '-' ∨ c.isDigit = true) (cs : List Char) :
    leaf? (c :: cs) = number? (c :: cs) := by
  unfold leaf?
  split
  · simp_all
  · simp_all
  · simp_all
  · rfl

/-- A digit differs from every character that is none. -/
theorem ne_of_isDigit {c d : Char} (hc : c.isDigit = true) (hd : d.isDigit = false) : c ≠ d := by
  rintro rfl
  rw [hd] at hc
  exact Bool.false_ne_true hc

/-- A number as it is written is read as its leaf. -/
theorem NumeralText.Sound.leafText {n : NumeralText} (h : n.Sound) : LeafText n.text n.leaf := by
  obtain ⟨c, ds, hcons⟩ := List.exists_cons_of_ne_nil h.whole.ne_nil
  have hdigit : c.isDigit = true := h.whole.isDigit c (by simp [hcons])
  obtain ⟨d, rest, htext, hd⟩ : ∃ d rest, n.text = d :: rest ∧ (d = '-' ∨ d.isDigit = true) := by
    unfold NumeralText.text
    cases n.negative with
    | true => exact ⟨'-', _, rfl, .inl rfl⟩
    | false =>
      rw [hcons]
      exact ⟨c, _, rfl, .inr hdigit⟩
  refine ⟨⟨d, rest, htext, ?_⟩, fun tail htail => ?_⟩
  · rcases hd with rfl | hd
    · decide
    · refine ⟨?_, ne_of_isDigit hd rfl, ne_of_isDigit hd rfl, ne_of_isDigit hd rfl,
        ne_of_isDigit hd rfl⟩
      simp [isBlank, ne_of_isDigit hd (d := ' ') rfl, ne_of_isDigit hd (d := '\n') rfl,
        ne_of_isDigit hd (d := '\t') rfl, ne_of_isDigit hd (d := '\r') rfl]
  · have hnumber := NumeralText.number?_text h htail
    rw [htext, List.cons_append] at hnumber ⊢
    rw [leaf?_eq_number? hd, hnumber]

/-- What a text reads as that is a leaf. -/
def leafOf (cs : List Char) : Json :=
  match leaf? cs with
  | some (v, []) => v
  | _ => malformed

/-- The text of a leaf is read as the leaf. -/
theorem LeafText.leafOf_eq {cs : List Char} {v : Json} (h : LeafText cs v) : leafOf cs = v := by
  have hleaf := h.leaf [] nofun
  rw [List.append_nil] at hleaf
  rw [leafOf, hleaf]

/-- The text of a whole number is a leaf. -/
theorem leafText_int (i : ℤ) : LeafText (intText i).toList (leafOf (intText i).toList) := by
  have h := (sound_int i).leafText
  rw [← toList_intText] at h
  rwa [h.leafOf_eq]

/-- The text of a double is a leaf. -/
theorem leafText_real (x : Float) : LeafText (realText x) (leafOf (realText x)) := by
  unfold realText
  split_ifs
  · exact leafText_null
  · obtain ⟨n, hsound, -, -, htext⟩ := isReal_document x
    have h := hsound.leafText
    rw [htext] at h
    rwa [h.leafOf_eq]

/-- The text of a double is never read as a whole number. -/
theorem leafOf_realText (x : Float) :
    leafOf (realText x) = null ∨ ∃ n, leafOf (realText x) = realLeaf n := by
  unfold realText
  split_ifs
  · exact .inl leafText_null.leafOf_eq
  · obtain ⟨n, hsound, hfractional, -, htext⟩ := isReal_document x
    obtain ⟨m, hm⟩ := hfractional.exists_leaf_eq
    rw [← htext, hsound.leafText.leafOf_eq]
    exact .inr ⟨m, hm⟩

/-- The text of a whole number is read as the leaf of its digits. -/
theorem leafOf_intText (i : ℤ) :
    leafOf (intText i).toList = wholeLeaf (i < 0) (digits i.natAbs) := by
  rw [toList_intText, (sound_int i).leafText.leafOf_eq]
  rfl

/-- A whole number of 64 bits is read back. -/
theorem leafOf_intText_eq {i : ℤ} (hlow : Int64.minValue.toInt ≤ i) (hhigh : i < UInt64.size) :
    leafOf (intText i).toList = int i := by
  rw [leafOf_intText, wholeLeaf, value_digits]
  by_cases hsign : i < 0
  · rw [if_pos (decide_eq_true hsign), if_pos (by omega)]
    congr 1
    omega
  · rw [if_neg (by simpa using hsign), if_pos (by omega)]
    congr 1
    omega

/-! ## Trees -/

mutual

/-- What the text of a tree reads as: numbers may be rounded, and what has no text of its own is
null. -/
def reread : Json → Json
  | int i => leafOf (intText i).toList
  | real x => leafOf (realText x)
  | array items => array (rereadItems items)
  | object members => object (rereadMembers members)
  | unnamed v => reread v
  | loose => null
  | malformed => null
  | leaf => leaf

/-- What the texts of the trees of a list read as. -/
def rereadItems : List Json → List Json
  | [] => []
  | v :: vs => reread v :: rereadItems vs

/-- What the texts of the values of members read as. -/
def rereadMembers : List (String × Json) → List (String × Json)
  | [] => []
  | (k, v) :: ms => (k, reread v) :: rereadMembers ms

end

/-- The items of an array are read one by one. -/
theorem rereadItems_eq (items : List Json) : rereadItems items = items.map reread := by
  induction items with
  | nil => rfl
  | cons v vs ih => rw [rereadItems, ih, List.map_cons]

/-- The members of an object are read one by one. -/
theorem rereadMembers_eq (members : List (String × Json)) :
    rereadMembers members = members.map fun m => (m.1, m.2.reread) := by
  induction members with
  | nil => rfl
  | cons m ms ih => rw [rereadMembers, ih, List.map_cons]

/-- The text of items that stand behind an opening bracket or a comma. -/
def itemsText (style : Style) (level : ℕ) : List Json → List Char
  | [] => []
  | v :: vs => style.gap level ++ (v.write style level ++ writeItems style level vs)

/-- The text of members that stand behind an opening brace or a comma. -/
def membersText (style : Style) (level : ℕ) : List (String × Json) → List Char
  | [] => []
  | (k, v) :: ms =>
    style.gap level ++ (quoted k ++ (style.colon ++ (v.write style level ++
      writeMembers style level ms)))

/-- A character that continues no number ends one. -/
theorem endsNumber_cons {c : Char} {cs : List Char}
    (h : c.isDigit = false ∧ c ≠ '.' ∧ c ≠ 'e' ∧ c ≠ 'E') : EndsNumber (c :: cs) := by
  rintro _ ⟨⟩
  exact h

/-- Such a character ends a number also behind blanks. -/
theorem endsNumber_blanks {blanks rest : List Char} {c : Char}
    (hblanks : ∀ b ∈ blanks, isBlank b = true)
    (h : c.isDigit = false ∧ c ≠ '.' ∧ c ≠ 'e' ∧ c ≠ 'E') : EndsNumber (blanks ++ c :: rest) := by
  cases blanks with
  | nil => exact endsNumber_cons h
  | cons b blanks =>
    refine endsNumber_cons ?_
    have hb := hblanks b (by simp)
    simp only [isBlank, Bool.or_eq_true, decide_eq_true_eq] at hb
    rcases hb with ((rfl | rfl) | rfl) | rfl <;> decide

/-- The text of a tree starts with a character that is no blank and closes nothing. -/
theorem exists_cons_write (style : Style) (level : ℕ) (v : Json) :
    ∃ c cs, v.write style level = c :: cs ∧ isBlank c = false ∧ c ≠ ']' := by
  have hleaf {cs : List Char} {w : Json} (h : LeafText cs w) :
      ∃ c tail, cs = c :: tail ∧ isBlank c = false ∧ c ≠ ']' := by
    obtain ⟨c, tail, hcs, hblank, -, -, -, hbracket⟩ := h.head
    exact ⟨c, tail, hcs, hblank, hbracket⟩
  match v with
  | null | loose | malformed => exact hleaf leafText_null
  | bool b => exact hleaf (leafText_bool b)
  | int i => exact hleaf (leafText_int i)
  | real x => exact hleaf (leafText_real x)
  | string s => exact ⟨'"', _, rfl, rfl, by decide⟩
  | array [] | array (_ :: _) => exact ⟨'[', _, rfl, rfl, by decide⟩
  | object [] | object (_ :: _) => exact ⟨'\x7b', _, rfl, rfl, by decide⟩
  | unnamed v => exact exists_cons_write style level v

section Steps

variable {fuel : ℕ} {blanks rest : List Char} (hblanks : ∀ c ∈ blanks, isBlank c = true)
include hblanks

/-- A leaf is read. -/
theorem readValue_of_leafText {cs : List Char} {v : Json} (h : LeafText cs v)
    (hrest : EndsNumber rest) (hfuel : 2 * cs.length ≤ fuel) :
    readValue fuel (blanks ++ (cs ++ rest)) = (v, some rest) := by
  obtain ⟨c, tail, rfl, hblank, hquote, hbracket, hbrace, -⟩ := h.head
  obtain ⟨fuel, rfl⟩ : ∃ k, fuel = k + 1 := ⟨fuel - 1, by simp at hfuel; omega⟩
  have hleaf := h.leaf rest hrest
  rw [readValue, skipBlanks_append hblanks]
  rw [List.cons_append] at hleaf ⊢
  rw [skipBlanks_cons hblank]
  split
  · simp_all
  · simp_all
  · simp_all
  · rw [hleaf]

/-- A string is read. -/
theorem readValue_quoted (s : String) :
    readValue (fuel + 1) (blanks ++ (quoted s ++ rest)) = (string s, some rest) := by
  have hquoted : quoted s ++ rest = '"' :: (s.toList.flatMap escape ++ '"' :: rest) := by
    simp [quoted]
  rw [readValue, skipBlanks_append hblanks, hquoted, skipBlanks_cons rfl]
  simp only [string?_flatMap]

/-- The items of an array make the array. -/
theorem readValue_array {cs : List Char} {items : List Json}
    (hhead : ∀ tail, skipBlanks cs ≠ ']' :: tail) (h : readItems fuel cs = (items, some rest)) :
    readValue (fuel + 1) (blanks ++ '[' :: cs) = (array items, some rest) := by
  rw [readValue, skipBlanks_append hblanks, skipBlanks_cons rfl]
  simp only [h]

/-- The members of an object make the object. -/
theorem readValue_object {cs : List Char} {members : List (String × Json)}
    (hhead : ∀ tail, skipBlanks cs ≠ '\x7d' :: tail)
    (h : readMembers fuel cs = (members, some rest)) :
    readValue (fuel + 1) (blanks ++ '\x7b' :: cs) = (object members, some rest) := by
  rw [readValue, skipBlanks_append hblanks, skipBlanks_cons rfl]
  simp only [h]

/-- An item before the closing bracket is the last one. -/
theorem readItems_last {cs : List Char} {v : Json}
    (h : readValue fuel cs = (v, some (blanks ++ ']' :: rest))) :
    readItems (fuel + 1) cs = ([v], some rest) := by
  simp only [readItems, h, skipBlanks_append hblanks, skipBlanks_cons (c := ']') rfl]

/-- A member before the closing brace is the last one. -/
theorem readMembers_last {cs : List Char} {v : Json}
    (h : readValue fuel cs = (v, some (blanks ++ '\x7d' :: rest))) (key : String) (style : Style)
    (level : ℕ) :
    readMembers (fuel + 1) (style.gap level ++ (quoted key ++ (':' :: cs))) =
      ([(key, v)], some rest) := by
  have hquoted : quoted key ++ (':' :: cs) =
      '"' :: (key.toList.flatMap escape ++ '"' :: ':' :: cs) := by
    simp [quoted]
  rw [readMembers, skipBlanks_append fun _ => isBlank_of_mem_gap, hquoted, skipBlanks_cons rfl]
  simp only [string?_flatMap, skipBlanks_cons (c := ':') rfl, h, skipBlanks_append hblanks,
    skipBlanks_cons (c := '\x7d') rfl, memberOf]

end Steps

/-- An item before a comma comes before the items behind the comma. -/
theorem readItems_more {fuel : ℕ} {cs more rest : List Char} {v : Json} {vs : List Json}
    (h : readValue fuel cs = (v, some (',' :: more)))
    (hmore : readItems fuel more = (vs, some rest)) :
    readItems (fuel + 1) cs = (v :: vs, some rest) := by
  simp only [readItems, h, skipBlanks_cons (c := ',') rfl, hmore]

/-- A member before a comma comes before the members behind the comma. -/
theorem readMembers_more {fuel : ℕ} {cs more rest : List Char} {v : Json}
    {ms : List (String × Json)} (h : readValue fuel cs = (v, some (',' :: more)))
    (hmore : readMembers fuel more = (ms, some rest)) (key : String) (style : Style) (level : ℕ) :
    readMembers (fuel + 1) (style.gap level ++ (quoted key ++ (':' :: cs))) =
      ((key, v) :: ms, some rest) := by
  have hquoted : quoted key ++ (':' :: cs) =
      '"' :: (key.toList.flatMap escape ++ '"' :: ':' :: cs) := by
    simp [quoted]
  rw [readMembers, skipBlanks_append fun _ => isBlank_of_mem_gap, hquoted, skipBlanks_cons rfl]
  simp only [string?_flatMap, skipBlanks_cons (c := ':') rfl, h, skipBlanks_cons (c := ',') rfl,
    hmore, memberOf]

/-- Behind the colon stand only blanks. -/
theorem exists_colon (style : Style) :
    ∃ blanks, style.colon = ':' :: blanks ∧ ∀ c ∈ blanks, isBlank c = true := by
  cases style with
  | compact => exact ⟨[], rfl, nofun⟩
  | pretty => exact ⟨[' '], rfl, by simp [isBlank]⟩

/-- The first item does not close its array. -/
theorem skipBlanks_itemsText_ne (style : Style) (level : ℕ) (v : Json) (vs : List Json)
    (rest tail : List Char) :
    skipBlanks (itemsText style level (v :: vs) ++ rest) ≠ ']' :: tail := by
  obtain ⟨c, cs, hwrite, hblank, hbracket⟩ := exists_cons_write style level v
  rw [itemsText, List.append_assoc, skipBlanks_append fun _ => isBlank_of_mem_gap, hwrite,
    List.cons_append, List.cons_append, skipBlanks_cons hblank]
  exact fun h => hbracket (List.cons.inj h).1

/-- The first member does not close its object. -/
theorem skipBlanks_membersText_ne (style : Style) (level : ℕ) (m : String × Json)
    (ms : List (String × Json)) (rest tail : List Char) :
    skipBlanks (membersText style level (m :: ms) ++ rest) ≠ '\x7d' :: tail := by
  rw [membersText, List.append_assoc, skipBlanks_append fun _ => isBlank_of_mem_gap, quoted,
    List.cons_append, List.cons_append, skipBlanks_cons rfl]
  exact fun h => absurd (List.cons.inj h).1 (by decide)

mutual

/-- The text of a tree is read as the tree, whatever follows it. -/
theorem readValue_write (style : Style) (level : ℕ) :
    ∀ (v : Json) (fuel : ℕ) (blanks rest : List Char), (∀ c ∈ blanks, isBlank c = true) →
      EndsNumber rest → 2 * (v.write style level).length ≤ fuel →
      readValue fuel (blanks ++ (v.write style level ++ rest)) = (v.reread, some rest)
  | null, _, _, _, hblanks, hrest, hfuel =>
    readValue_of_leafText hblanks leafText_null hrest hfuel
  | bool b, _, _, _, hblanks, hrest, hfuel =>
    readValue_of_leafText hblanks (leafText_bool b) hrest hfuel
  | int i, _, _, _, hblanks, hrest, hfuel =>
    readValue_of_leafText hblanks (leafText_int i) hrest hfuel
  | real x, _, _, _, hblanks, hrest, hfuel =>
    readValue_of_leafText hblanks (leafText_real x) hrest hfuel
  | string s, fuel, blanks, rest, hblanks, hrest, hfuel => by
    obtain ⟨fuel, rfl⟩ : ∃ k, fuel = k + 1 := ⟨fuel - 1, by simp [write, quoted] at hfuel; omega⟩
    exact readValue_quoted hblanks s
  | array [], fuel, blanks, rest, hblanks, hrest, hfuel => by
    obtain ⟨fuel, rfl⟩ : ∃ k, fuel = k + 1 := ⟨fuel - 1, by simp [write] at hfuel; omega⟩
    rw [write, readValue, skipBlanks_append hblanks]
    rfl
  | array (v :: vs), fuel, blanks, rest, hblanks, hrest, hfuel => by
    -- each level takes a step for the value and one for each part; brackets and commas pay for them
    have htext : write style level (array (v :: vs)) ++ rest =
        '[' :: (itemsText style (level + 1) (v :: vs) ++ (style.gap level ++ ']' :: rest)) := by
      simp [write, itemsText]
    have hlength : (write style level (array (v :: vs))).length =
        (itemsText style (level + 1) (v :: vs)).length + (style.gap level).length + 2 := by
      simp [write, itemsText]
      omega
    obtain ⟨fuel, rfl⟩ : ∃ k, fuel = k + 1 := ⟨fuel - 1, by omega⟩
    rw [htext]
    exact readValue_array hblanks (skipBlanks_itemsText_ne style (level + 1) v vs _)
      (readItems_write style (level + 1) (v :: vs) fuel (style.gap level) rest
        (fun _ => isBlank_of_mem_gap) (by simp) (by omega))
  | object [], fuel, blanks, rest, hblanks, hrest, hfuel => by
    obtain ⟨fuel, rfl⟩ : ∃ k, fuel = k + 1 := ⟨fuel - 1, by simp [write] at hfuel; omega⟩
    rw [write, readValue, skipBlanks_append hblanks]
    rfl
  | object ((k, v) :: ms), fuel, blanks, rest, hblanks, hrest, hfuel => by
    have htext : write style level (object ((k, v) :: ms)) ++ rest =
        '\x7b' :: (membersText style (level + 1) ((k, v) :: ms) ++
          (style.gap level ++ '\x7d' :: rest)) := by
      simp [write, membersText]
    have hlength : (write style level (object ((k, v) :: ms))).length =
        (membersText style (level + 1) ((k, v) :: ms)).length + (style.gap level).length + 2 := by
      simp [write, membersText]
      omega
    obtain ⟨fuel, rfl⟩ : ∃ k, fuel = k + 1 := ⟨fuel - 1, by omega⟩
    rw [htext]
    exact readValue_object hblanks (skipBlanks_membersText_ne style (level + 1) (k, v) ms _)
      (readMembers_write style (level + 1) ((k, v) :: ms) fuel (style.gap level) rest
        (fun _ => isBlank_of_mem_gap) (by simp) (by omega))
  | loose, _, _, _, hblanks, hrest, hfuel =>
    readValue_of_leafText hblanks leafText_null hrest hfuel
  | unnamed v, fuel, blanks, rest, hblanks, hrest, hfuel =>
    readValue_write style level v fuel blanks rest hblanks hrest hfuel
  | malformed, _, _, _, hblanks, hrest, hfuel =>
    readValue_of_leafText hblanks leafText_null hrest hfuel

/-- The text of items is read as the items, up to the closing bracket. -/
theorem readItems_write (style : Style) (level : ℕ) :
    ∀ (vs : List Json) (fuel : ℕ) (blanks rest : List Char), (∀ c ∈ blanks, isBlank c = true) →
      vs ≠ [] → 2 * ((itemsText style level vs).length + 1) ≤ fuel →
      readItems fuel (itemsText style level vs ++ (blanks ++ ']' :: rest)) =
        (rereadItems vs, some rest)
  | [], _, _, _, _, hne, _ => absurd rfl hne
  | [v], fuel, blanks, rest, hblanks, _, hfuel => by
    have hlength : (itemsText style level [v]).length =
        (style.gap level).length + (v.write style level).length := by
      simp [itemsText, writeItems]
    obtain ⟨fuel, rfl⟩ : ∃ k, fuel = k + 1 := ⟨fuel - 1, by omega⟩
    have hvalue := readValue_write style level v fuel (style.gap level) (blanks ++ ']' :: rest)
      (fun _ => isBlank_of_mem_gap) (endsNumber_blanks hblanks (by decide)) (by omega)
    refine readItems_last hblanks ?_
    simpa [itemsText, writeItems] using hvalue
  | v :: w :: vs, fuel, blanks, rest, hblanks, _, hfuel => by
    have hlength : (itemsText style level (v :: w :: vs)).length =
        (style.gap level).length + (v.write style level).length + 1 +
          (itemsText style level (w :: vs)).length := by
      simp [itemsText, writeItems]
      omega
    obtain ⟨fuel, rfl⟩ : ∃ k, fuel = k + 1 := ⟨fuel - 1, by omega⟩
    have hvalue := readValue_write style level v fuel (style.gap level)
      (',' :: (itemsText style level (w :: vs) ++ (blanks ++ ']' :: rest)))
      (fun _ => isBlank_of_mem_gap) (endsNumber_cons (by decide)) (by omega)
    have hitems := readItems_write style level (w :: vs) fuel blanks rest hblanks (by simp)
      (by omega)
    refine readItems_more ?_ hitems
    simpa [itemsText, writeItems] using hvalue

/-- The text of members is read as the members, up to the closing brace. -/
theorem readMembers_write (style : Style) (level : ℕ) :
    ∀ (ms : List (String × Json)) (fuel : ℕ) (blanks rest : List Char),
      (∀ c ∈ blanks, isBlank c = true) → ms ≠ [] →
      2 * ((membersText style level ms).length + 1) ≤ fuel →
      readMembers fuel (membersText style level ms ++ (blanks ++ '\x7d' :: rest)) =
        (rereadMembers ms, some rest)
  | [], _, _, _, _, hne, _ => absurd rfl hne
  | [(k, v)], fuel, blanks, rest, hblanks, _, hfuel => by
    obtain ⟨space, hcolon, hspace⟩ := exists_colon style
    have hlength : (v.write style level).length ≤ (membersText style level [(k, v)]).length := by
      simp [membersText, writeMembers]
      omega
    obtain ⟨fuel, rfl⟩ : ∃ k, fuel = k + 1 := ⟨fuel - 1, by omega⟩
    have hvalue := readValue_write style level v fuel space (blanks ++ '\x7d' :: rest) hspace
      (endsNumber_blanks hblanks (by decide)) (by omega)
    have hmember := readMembers_last hblanks hvalue k style level
    simpa [membersText, writeMembers, rereadMembers, hcolon] using hmember
  | (k, v) :: m :: ms, fuel, blanks, rest, hblanks, _, hfuel => by
    obtain ⟨space, hcolon, hspace⟩ := exists_colon style
    have hlength : (v.write style level).length + 1 + (membersText style level (m :: ms)).length ≤
        (membersText style level ((k, v) :: m :: ms)).length := by
      simp [membersText, writeMembers]
      omega
    obtain ⟨fuel, rfl⟩ : ∃ k, fuel = k + 1 := ⟨fuel - 1, by omega⟩
    have hvalue := readValue_write style level v fuel space
      (',' :: (membersText style level (m :: ms) ++ (blanks ++ '\x7d' :: rest))) hspace
      (endsNumber_cons (by decide)) (by omega)
    have hmembers := readMembers_write style level (m :: ms) fuel blanks rest hblanks (by simp)
      (by omega)
    have hmember := readMembers_more hvalue hmembers k style level
    simpa [membersText, writeMembers, rereadMembers, hcolon] using hmember

end

/-- The text of a tree is read back, up to what its numbers read as. -/
theorem read_text (style : Style) (v : Json) : read (v.text style) = ⟨v.reread, true⟩ := by
  have hvalue := readValue_write style 0 v (2 * (v.write style 0).length + 2) [] [] nofun nofun
    (by omega)
  rw [List.nil_append, List.append_nil] at hvalue
  simp [read, text, hvalue, skipBlanks]

end Montage.Json
