import Mathlib.Data.List.Nodup
import Montage.Proofs.Usable

/-!
# Names of usable projects

The rule on names walks over the elements and over the entries and remembers the names it has
passed. What it lets through are elements with distinct variables of the script as names, none of
them with the mark of entries, and entries with distinct names, each of them a number or a variable.
The variable of an entry drops the number sign, but no number looks like a variable, so distinct
entries still have distinct variables. All these variables have the form of names of the language.
-/

namespace Montage

open Diagnostic Script

/-- The name of an entry is a number, or a variable of the script. -/
def WellNamed (name : String) : Prop :=
  (∃ n, Rule.EntryName.ofString name = .number n) ∨
    Rule.EntryName.ofString name = .plain ∧ isVariable name = true

/-- What the rule on names promises. -/
structure Project.SoundNames (p : Project) : Prop where
  isVariable : ∀ e ∈ p.elements, isVariable e.name = true
  unmarked : ∀ e ∈ p.elements, e.name.startsWith entryMark = false
  distinct : (p.elements.map Element.name).Nodup
  /-- No element has the name of the letters of a text. -/
  letters : ∀ e ∈ p.elements, e.isTextual → lettersVariable e.name ∉ p.elements.map Element.name
  distinctEntries : (p.timeline.map Entry.name).Nodup
  wellNamed : ∀ entry ∈ p.timeline, WellNamed entry.name

/-! ## The walk over elements -/

/-- A name without errors is a variable without the mark of entries. -/
theorem isVariable_of_elementNameFindings {name : String}
    (h : anyError (Rule.elementNameFindings name) = false) :
    isVariable name = true ∧ name.startsWith entryMark = false := by
  rw [Rule.elementNameFindings, anyError_append, Bool.or_eq_false_iff,
    anyError_ite_nil_eq_false_iff, anyError_ite_error_eq_false_iff, Bool.not_eq_true] at h
  exact h

/-- Names without errors are distinct, not taken before, and have no errors each. -/
theorem nodup_of_elementNamesFindings {taken names : List String}
    (h : anyError (Rule.elementNamesFindings taken names) = false) :
    names.Nodup ∧ ∀ name ∈ names, name ∉ taken ∧
      anyError (Rule.elementNameFindings name) = false := by
  induction names generalizing taken with
  | nil => simp
  | cons name rest ih =>
    simp only [Rule.elementNamesFindings, anyError_append, Bool.or_eq_false_iff,
      anyError_ite_error_eq_false_iff] at h
    obtain ⟨⟨hfresh, hname⟩, hrest⟩ := h
    obtain ⟨hnodup, hnames⟩ := ih hrest
    have hnot : name ∉ rest := fun hmem => (hnames name hmem).1 List.mem_cons_self
    refine ⟨List.nodup_cons.mpr ⟨hnot, hnodup⟩, ?_⟩
    intro other hother
    rcases List.mem_cons.mp hother with rfl | hother
    · exact ⟨hfresh, hname⟩
    · exact ⟨fun htaken => (hnames other hother).1 (List.mem_cons_of_mem _ htaken),
        (hnames other hother).2⟩

/-! ## The walk over entries -/

/-- Entry names without errors are distinct, not taken before, and numbers or variables. The walk
that stops early has found an error, so it never stops here. -/
theorem nodup_of_entryNamesFindings {first : Bool} {taken names : List String} {last : ℕ}
    (h : anyError (Rule.entryNamesFindings first taken last names) = false) :
    names.Nodup ∧ ∀ name ∈ names, name ∉ taken ∧ WellNamed name := by
  induction names generalizing first taken last with
  | nil => simp
  | cons name rest ih =>
    rw [Rule.entryNamesFindings] at h
    split at h
    · simp at h
    · rename_i hfresh
      -- Whatever form the name has, the walk goes on with the name taken and some last number.
      have hstep : WellNamed name ∧
          ∃ last', anyError (Rule.entryNamesFindings false (name :: taken) last' rest) = false := by
        cases hname : Rule.EntryName.ofString name with
        | number n =>
          refine ⟨Or.inl ⟨n, hname⟩, ?_⟩
          simp only [hname] at h
          split at h
          · split at h
            · exact ⟨1, h⟩
            · simp at h
          · rw [anyError_append, Bool.or_eq_false_iff] at h
            exact ⟨n, h.2⟩
        | misnumbered => simp [hname] at h
        | plain =>
          simp only [hname, anyError_append, Bool.or_eq_false_iff,
            anyError_ite_nil_eq_false_iff] at h
          exact ⟨Or.inr ⟨hname, h.1⟩, last, h.2⟩
      obtain ⟨hwell, last', hrest⟩ := hstep
      obtain ⟨hnodup, hnames⟩ := ih hrest
      have hnot : name ∉ rest := fun hmem => (hnames name hmem).1 List.mem_cons_self
      refine ⟨List.nodup_cons.mpr ⟨hnot, hnodup⟩, ?_⟩
      intro other hother
      rcases List.mem_cons.mp hother with rfl | hother
      · exact ⟨hfresh, hwell⟩
      · exact ⟨fun htaken => (hnames other hother).1 (List.mem_cons_of_mem _ htaken),
          (hnames other hother).2⟩

/-- Names are sound where the rule on names finds no error. -/
theorem Project.soundNames_of_check {p : Project} (h : anyError (Rule.naming.check p) = false) :
    p.SoundNames := by
  simp only [Rule.naming, Rule.namingFindings, anyError_append, Bool.or_eq_false_iff,
    anyError_flatMap_eq_false_iff] at h
  obtain ⟨⟨⟨-, helements⟩, hletters⟩, hentries⟩ := h
  obtain ⟨hdistinct, hnames⟩ := nodup_of_elementNamesFindings helements
  obtain ⟨hdistinctEntries, hwell⟩ := nodup_of_entryNamesFindings hentries
  have hform : ∀ e ∈ p.elements, isVariable e.name = true ∧ e.name.startsWith entryMark = false :=
    fun e he => isVariable_of_elementNameFindings (hnames e.name (List.mem_map_of_mem he)).2
  refine ⟨fun e he => (hform e he).1, fun e he => (hform e he).2, hdistinct, ?_,
    hdistinctEntries, fun entry hentry => (hwell entry.name (List.mem_map_of_mem hentry)).2⟩
  intro e he htextual
  have htext : e.name ∈ (p.elements.filter Element.isTextual).map Element.name :=
    List.mem_map_of_mem (List.mem_filter.mpr ⟨he, htextual⟩)
  have hfound := hletters e.name htext
  rwa [Rule.lettersFindings, anyError_ite_error_eq_false_iff] at hfound

/-- The names of a usable project are sound. -/
theorem Project.Usable.names {p : Project} (h : p.Usable) : p.SoundNames :=
  soundNames_of_check (h.check .naming)

/-! ## Variables of elements -/

/-- A variable of the script is none of the names that the script keeps for itself. -/
theorem not_mem_ownNames_of_isVariable {name : String} (h : isVariable name = true) :
    name ∉ ownNames := by
  simp only [isVariable, Bool.and_eq_true, Bool.not_eq_true', List.contains_eq_mem,
    decide_eq_false_iff_not] at h
  exact h.2

/-- Elements of one name are one element. -/
theorem Project.SoundNames.element_inj {p : Project} (h : p.SoundNames) {e e' : Element}
    (he : e ∈ p.elements) (he' : e' ∈ p.elements) (hname : e.name = e'.name) : e = e' :=
  List.inj_on_of_nodup_map h.distinct he he' hname

/-! ## Variables of entries -/

/-- The variable of an entry starts with the mark of entries. -/
theorem startsWith_entryVariable (name : String) :
    (entryVariable name).startsWith entryMark = true := by
  rw [String.startsWith_string_iff, entryVariable, String.toList_append]
  exact List.prefix_append _ _

/-- The variable of an entry is none of some names without the mark of entries. -/
theorem entryVariable_not_mem {names : List String}
    (h : ∀ name ∈ names, name.startsWith entryMark = false) (name : String) :
    entryVariable name ∉ names := by
  intro hmem
  have hunmarked := h _ hmem
  rw [startsWith_entryVariable] at hunmarked
  exact Bool.noConfusion hunmarked

/-- The variable of an entry is none of the names that the script keeps for itself. -/
theorem entryVariable_not_mem_ownNames (name : String) : entryVariable name ∉ ownNames :=
  entryVariable_not_mem (by decide +kernel) name

/-- The variable of an entry is no word of the script's language. -/
theorem entryVariable_not_mem_keywords (name : String) : entryVariable name ∉ keywords :=
  entryVariable_not_mem (by decide +kernel) name

/-- The variable of an entry is the name of no element. -/
theorem Project.SoundNames.entryVariable_ne {p : Project} (h : p.SoundNames) (name : String)
    {e : Element} (he : e ∈ p.elements) : entryVariable name ≠ e.name := by
  intro heq
  have hunmarked := h.unmarked e he
  rw [← heq, startsWith_entryVariable] at hunmarked
  exact Bool.noConfusion hunmarked

/-- The name of an entry is its number sign, if it has one, in front of what is left without. -/
theorem toList_withoutNumberSign (name : String) :
    (∃ rest, name.toList = '#' :: rest ∧ (withoutNumberSign name).toList = rest) ∨
      name.toList.head? ≠ some '#' ∧ withoutNumberSign name = name := by
  unfold withoutNumberSign
  split
  · rename_i rest hname
    exact Or.inl ⟨rest, hname, by simp⟩
  · rename_i hname
    refine Or.inr ⟨?_, rfl⟩
    intro hhead
    cases hlist : name.toList with
    | nil => simp [hlist] at hhead
    | cons c rest =>
      simp only [hlist, List.head?_cons, Option.some.injEq] at hhead
      exact hname rest (hhead ▸ hlist)

/-- What follows the number sign of a well-formed name are digits. -/
theorem WellNamed.digits {name : String} (h : WellNamed name) {rest : List Char}
    (hname : name.toList = '#' :: rest) : rest ≠ [] ∧ ∀ c ∈ rest, c.isDigit = true := by
  rcases h with ⟨n, hn⟩ | ⟨hplain, -⟩
  · simp only [Rule.EntryName.ofString, hname] at hn
    split at hn
    · rename_i hdigits
      exact ⟨hdigits.1, List.all_eq_true.mp hdigits.2.1⟩
    · simp at hn
  · simp only [Rule.EntryName.ofString, hname] at hplain
    split at hplain <;> simp at hplain

/-- What follows the number sign of a well-formed name starts with a digit. -/
theorem WellNamed.exists_digit {name : String} (h : WellNamed name) {rest : List Char}
    (hname : name.toList = '#' :: rest) : ∃ c ds, rest = c :: ds ∧ c.isDigit = true := by
  obtain ⟨hne, hdigits⟩ := h.digits hname
  obtain ⟨c, ds, rfl⟩ := List.exists_cons_of_ne_nil hne
  exact ⟨c, ds, rfl, hdigits c List.mem_cons_self⟩

/-- No letter is a digit. -/
theorem isDigit_of_isAlpha {c : Char} (h : c.isAlpha = true) : c.isDigit = false := by
  have hletter : c.isAlpha = (decide ('A'.val ≤ c.val ∧ c.val ≤ 'Z'.val) ||
      (decide ('a'.val ≤ c.val) && decide (c.val ≤ 'z'.val))) := rfl
  have hdigit : c.isDigit = (decide ('0'.val ≤ c.val) && decide (c.val ≤ '9'.val)) := rfl
  have hnine : '9'.val.toNat = 57 := rfl
  have hA : 'A'.val.toNat = 65 := rfl
  have ha : 'a'.val.toNat = 97 := rfl
  simp only [hletter, Bool.or_eq_true, Bool.and_eq_true, decide_eq_true_eq,
    UInt32.le_iff_toNat_le] at h
  simp only [hdigit, Bool.and_eq_false_iff, decide_eq_false_iff_not, UInt32.le_iff_toNat_le]
  omega

/-- A well-formed name without a number sign is a variable. -/
theorem WellNamed.isVariable {name : String} (h : WellNamed name)
    (hname : name.toList.head? ≠ some '#') : isVariable name = true := by
  rcases h with ⟨n, hn⟩ | ⟨-, hvariable⟩
  · unfold Rule.EntryName.ofString at hn
    split at hn
    · rename_i ds hsign
      simp [hsign] at hname
    · simp at hn
  · exact hvariable

/-- A well-formed name without a number sign does not start with a digit. -/
theorem WellNamed.not_digit {name : String} (h : WellNamed name)
    (hname : name.toList.head? ≠ some '#') {c : Char} {ds : List Char}
    (hchars : name.toList = c :: ds) : c.isDigit = false := by
  have hvariable := h.isVariable hname
  simp only [Script.isVariable, isIdentifier, hchars, isNameStart, Bool.and_eq_true,
    Bool.or_eq_true, decide_eq_true_eq] at hvariable
  rcases hvariable.1.1.1 with halpha | rfl
  · exact isDigit_of_isAlpha halpha
  · decide

/-- Well-formed names of entries are determined by their variables. -/
theorem WellNamed.eq_of_entryVariable_eq {a b : String} (ha : WellNamed a) (hb : WellNamed b)
    (h : entryVariable a = entryVariable b) : a = b := by
  have hrest : withoutNumberSign a = withoutNumberSign b := by
    have hchars := congrArg String.toList h
    simp only [entryVariable, String.toList_append, List.append_cancel_left_eq] at hchars
    exact String.toList_injective hchars
  rcases toList_withoutNumberSign a with ⟨as, hsign, has⟩ | ⟨hplain, has⟩ <;>
    rcases toList_withoutNumberSign b with ⟨bs, hsign', hbs⟩ | ⟨hplain', hbs⟩
  · apply String.toList_injective
    rw [hsign, hsign', ← has, ← hbs, hrest]
  · -- The digits of a number would have to be a variable.
    obtain ⟨c, ds, rfl, hdigit⟩ := ha.exists_digit hsign
    rw [hrest, hbs] at has
    simp [hb.not_digit hplain' has] at hdigit
  · obtain ⟨c, ds, rfl, hdigit⟩ := hb.exists_digit hsign'
    rw [← hrest, has] at hbs
    simp [ha.not_digit hplain hbs] at hdigit
  · rw [← has, ← hbs, hrest]

/-- Distinct entries of a usable timeline have distinct variables. -/
theorem Project.SoundNames.entryVariable_inj {p : Project} (h : p.SoundNames) {i j : ℕ}
    {a b : Entry} (ha : p.timeline[i]? = some a) (hb : p.timeline[j]? = some b)
    (heq : entryVariable a.name = entryVariable b.name) : i = j := by
  have hname : a.name = b.name :=
    (h.wellNamed a (List.mem_of_getElem? ha)).eq_of_entryVariable_eq
      (h.wellNamed b (List.mem_of_getElem? hb)) heq
  have hi : i < (p.timeline.map Entry.name).length := by
    simpa using (List.getElem?_eq_some_iff.mp ha).1
  apply (List.getElem?_inj hi h.distinctEntries).mp
  rw [List.getElem?_map, List.getElem?_map, ha, hb, Option.map_some, Option.map_some, hname]

/-! ## The form of variables -/

namespace Script

/-- A letter from A to Z, small or capital, or an underscore. -/
def StartsName (c : Char) : Prop :=
  ('A' ≤ c ∧ c ≤ 'Z') ∨ ('a' ≤ c ∧ c ≤ 'z') ∨ c = '_'

/-- A character that starts a name, or a digit from 0 to 9. -/
def ContinuesName (c : Char) : Prop :=
  StartsName c ∨ ('0' ≤ c ∧ c ≤ '9')

/-- A text of at least one character, of which the first starts and the others continue a name. -/
def IsName (s : String) : Prop :=
  ∃ c rest, s.toList = c :: rest ∧ StartsName c ∧ ∀ d ∈ rest, ContinuesName d

/-- The test for the first character of an identifier. -/
theorem isNameStart_iff (c : Char) : isNameStart c = true ↔ StartsName c := by
  unfold isNameStart Char.isAlpha Char.isUpper Char.isLower
  simp [StartsName, Char.le_def, or_assoc]

/-- The test for the other characters of an identifier. -/
theorem isNamePart_iff (c : Char) : isNamePart c = true ↔ ContinuesName c := by
  rw [ContinuesName, ← isNameStart_iff]
  simp [isNamePart, isNameStart, Char.isAlphanum, Char.isDigit, Char.le_def, or_right_comm]

/-- The test for identifiers accepts the texts that have the form of a name. -/
theorem isIdentifier_iff (s : String) : isIdentifier s = true ↔ IsName s := by
  unfold isIdentifier IsName
  cases s.toList with
  | nil => simp
  | cons c rest => simp [isNameStart_iff, isNamePart_iff]

/-- A variable of the script is a name that neither the language nor the script keeps for itself. -/
theorem isVariable_iff (s : String) :
    isVariable s = true ↔ IsName s ∧ s ∉ keywords ∧ s ∉ ownNames := by
  simp [isVariable, isIdentifier_iff, and_assoc]

/-- A name stays one when it is continued. -/
theorem IsName.append {s t : String} (hs : IsName s) (ht : ∀ c ∈ t.toList, ContinuesName c) :
    IsName (s ++ t) := by
  obtain ⟨c, rest, hchars, hstart, hrest⟩ := hs
  refine ⟨c, rest ++ t.toList, by rw [String.toList_append, hchars, List.cons_append], hstart, ?_⟩
  exact List.forall_mem_append.mpr ⟨hrest, ht⟩

/-- Every character of a name continues a name. -/
theorem IsName.continuesName {s : String} (hs : IsName s) : ∀ c ∈ s.toList, ContinuesName c := by
  obtain ⟨c, rest, hchars, hstart, hrest⟩ := hs
  rw [hchars]
  exact List.forall_mem_cons.mpr ⟨Or.inl hstart, hrest⟩

end Script

/-- Without its number sign, a well-formed name of an entry continues any name. -/
theorem WellNamed.continuesName {name : String} (h : WellNamed name) :
    ∀ c ∈ (withoutNumberSign name).toList, ContinuesName c := by
  rcases toList_withoutNumberSign name with ⟨rest, hsign, hrest⟩ | ⟨hplain, hname⟩
  · rw [hrest]
    intro c hc
    rw [← isNamePart_iff, isNamePart, Char.isAlphanum, (h.digits hsign).2 c hc]
    simp
  · rw [hname]
    exact ((isVariable_iff name).mp (h.isVariable hplain)).1.continuesName

/-- The variable of an entry with a well-formed name is a variable of the script. -/
theorem WellNamed.isVariable_entryVariable {name : String} (h : WellNamed name) :
    Script.isVariable (entryVariable name) = true := by
  have hmark : IsName entryMark := (isIdentifier_iff entryMark).mp (by decide +kernel)
  rw [isVariable_iff]
  exact ⟨hmark.append h.continuesName, entryVariable_not_mem_keywords name,
    entryVariable_not_mem_ownNames name⟩

/-- Where the rule on names finds no error, distinct entries have distinct variables, none of them
the name of an element, and all these names are made of letters, digits and underscores, without a
digit in front, and are neither words of the language nor names that the script keeps for itself. -/
theorem Project.names_unambiguous {p : Project} (h : anyError (Rule.naming.check p) = false) :
    (∀ (i j : ℕ) (a b : Entry), p.timeline[i]? = some a → p.timeline[j]? = some b → i ≠ j →
      entryVariable a.name ≠ entryVariable b.name) ∧
    (∀ entry ∈ p.timeline, ∀ e ∈ p.elements, entryVariable entry.name ≠ e.name) ∧
    ∀ name ∈ p.elements.map Element.name ++
        p.timeline.map (fun entry => entryVariable entry.name),
      IsName name ∧ name ∉ keywords ∧ name ∉ ownNames := by
  have hnames := soundNames_of_check h
  refine ⟨?_, fun entry _ e he => hnames.entryVariable_ne entry.name he, ?_⟩
  · intro i j a b ha hb hij heq
    exact hij (hnames.entryVariable_inj ha hb heq)
  · intro name hname
    rw [← isVariable_iff]
    rcases List.mem_append.mp hname with helement | hvariable
    · obtain ⟨e, he, rfl⟩ := List.mem_map.mp helement
      exact hnames.isVariable e he
    · obtain ⟨entry, hentry, rfl⟩ := List.mem_map.mp hvariable
      exact (hnames.wellNamed entry hentry).isVariable_entryVariable

/-- The entries of the holiday film, some of them numbered and one with a name, have variables of
their own. -/
theorem Project.holiday_names_unambiguous :
    anyError (Rule.naming.check holiday) = false ∧
      (∀ (i j : ℕ) (a b : Entry), holiday.timeline[i]? = some a → holiday.timeline[j]? = some b →
        i ≠ j → entryVariable a.name ≠ entryVariable b.name) ∧
      (∀ entry ∈ holiday.timeline, ∀ e ∈ holiday.elements, entryVariable entry.name ≠ e.name) ∧
      ∀ name ∈ holiday.elements.map Element.name ++
          holiday.timeline.map (fun entry => entryVariable entry.name),
        IsName name ∧ name ∉ keywords ∧ name ∉ ownNames :=
  ⟨holiday_usable.check .naming, names_unambiguous (holiday_usable.check .naming)⟩

end Montage
