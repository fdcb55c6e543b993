import Mathlib.Data.List.Basic
import Montage.Rule

/-!
# Usable projects

A project is usable when no rule finds an error in it. Here the absence of errors is turned into
what the rules on references and on the timeline promise: which names lead somewhere, which
element stands before which, and that no circle was reported. Later proofs use these promises and
never look at findings again.
-/

namespace Montage

/-! ## Findings without errors -/

namespace Diagnostic

/-- Nothing found is no error. -/
@[simp] theorem anyError_nil : anyError [] = false := rfl

/-- A list of findings has an error if its first finding is one or the others have one. -/
@[simp] theorem anyError_cons (d : Diagnostic) (ds : List Diagnostic) :
    anyError (d :: ds) = (d.isError || anyError ds) := rfl

/-- Findings put together have an error if one of the two parts has. -/
@[simp] theorem anyError_append (ds es : List Diagnostic) :
    anyError (ds ++ es) = (anyError ds || anyError es) := by
  simp [anyError]

/-- A finding made as an error is one. -/
@[simp] theorem isError_error (rule message target : String) :
    (error rule message target).isError = true := rfl

/-- Findings collected over a list have no error exactly when no part has one. -/
theorem anyError_flatMap_eq_false_iff {α : Type} (f : α → List Diagnostic) (xs : List α) :
    anyError (xs.flatMap f) = false ↔ ∀ x ∈ xs, anyError (f x) = false := by
  induction xs with
  | nil => simp
  | cons x xs ih => simp [ih]

/-- An error that is reported under a condition is absent exactly when the condition fails. -/
theorem anyError_ite_error_eq_false_iff (c : Prop) [Decidable c] (rule message target : String) :
    anyError (if c then [error rule message target] else []) = false ↔ ¬ c := by
  by_cases hc : c <;> simp [hc]

/-- An error that is reported unless a condition holds is absent exactly when it holds. -/
theorem anyError_ite_nil_eq_false_iff (c : Prop) [Decidable c] (rule message target : String) :
    anyError (if c then [] else [error rule message target]) = false ↔ c := by
  by_cases hc : c <;> simp [hc]

end Diagnostic

open Diagnostic

/-- No rule of the library finds an error in the project. -/
def Project.Usable (p : Project) : Prop :=
  anyError p.diagnose = false

instance (p : Project) : Decidable p.Usable :=
  inferInstanceAs (Decidable (_ = _))

/-- No single rule of the library finds an error in a usable project. -/
theorem Project.Usable.check {p : Project} (h : p.Usable) (rule : Rule)
    (hrule : rule ∈ Rule.all := by simp [Rule.all]) : anyError (rule.check p) = false :=
  (anyError_flatMap_eq_false_iff (fun rule : Rule => rule.check p) Rule.all).mp h rule hrule

/-- The timestamp that a text denotes; the beginning of the timeline if it denotes none. -/
def Timestamp.read (text : String) : Timestamp :=
  (ofChars? text.toList).getD zero

/-- A film with a clip, a title whose letters move, music and a caption, in which entries start in
every way in which they can. -/
def Project.holiday : Project where
  outputName := "holiday"
  elements :=
    [.video ⟨"beach", "clips/beach.mp4", some ⟨1920, 1080⟩, [.transition .fadeIn]⟩,
      .text ⟨"title", "Summer 2024", [.effect .grouping]⟩,
      .audio ⟨"theme", "audio/theme.mp3", [.normalize]⟩,
      .subtitle ⟨"caption", "The view from the top", []⟩]
  groups := [.text ⟨"letters", ["title", "caption"], [.fontSize 96]⟩]
  timeline :=
    [⟨"#1", "beach", .implicit, none, none⟩,
      ⟨"#2", "title", .relative "#1" .start (some ⟨.plus, .read "00:01"⟩), some (.read "00:04"),
        some (.above "#1")⟩,
      ⟨"music", "theme", .fixed (.read "00:02.5"), none, none⟩,
      ⟨"#3", "caption", .relative "music" .stop (some ⟨.minus, .read "00:05"⟩), none, none⟩,
      ⟨"#4", "beach", .implicit, none, some (.under "#2")⟩]

/-- No rule finds an error in the film. -/
theorem Project.holiday_usable : Project.holiday.Usable := by decide +kernel

/-! ## Names that are looked up -/

namespace Project

/-- The first entry of a name is one of the timeline and has the name. -/
theorem entry?_eq_some {p : Project} {name : String} {entry : Entry}
    (h : p.entry? name = some entry) : entry ∈ p.timeline ∧ entry.name = name :=
  ⟨List.mem_of_find?_eq_some h, by simpa using List.find?_some h⟩

/-- The first element of a name is one of the project and has the name. -/
theorem element?_eq_some {p : Project} {name : String} {e : Element}
    (h : p.element? name = some e) : e ∈ p.elements ∧ e.name = name :=
  ⟨List.mem_of_find?_eq_some h, by simpa using List.find?_some h⟩

/-- A name has an index on the timeline exactly when it has an entry. -/
theorem entryIndex?_eq_none_iff (p : Project) (name : String) :
    p.entryIndex? name = none ↔ p.entry? name = none := by
  simp [entryIndex?, entry?]

/-- The index of a name is that of an entry with the name. -/
theorem entryIndex?_eq_some {p : Project} {name : String} {j : ℕ}
    (h : p.entryIndex? name = some j) :
    ∃ entry, p.timeline[j]? = some entry ∧ entry.name = name := by
  obtain ⟨hj, hname, -⟩ := List.findIdx?_eq_some_iff_getElem.mp h
  exact ⟨p.timeline[j], List.getElem?_eq_getElem hj, by simpa using hname⟩

/-! ## What the rule on references promises -/

/-- Every name that the elements and entries of a project use names something, and pieces are cut
from elements of their category that are declared before them. -/
structure SoundReferences (p : Project) : Prop where
  source : ∀ before e after source, p.elements = before ++ e :: after → e.source? = some source →
    ∃ x ∈ before, x.name = source ∧ x.category = e.category
  element : ∀ entry ∈ p.timeline, ∃ e, p.element? entry.element = some e
  relative : ∀ entry ∈ p.timeline, ∀ target, entry.relativeTarget? = some target →
    p.entry? target ≠ none
  layer : ∀ entry ∈ p.timeline, ∀ relation, entry.layer = some relation →
    p.entry? relation.target ≠ none

/-- A source without errors is an element of the same category at a smaller index. -/
theorem exists_of_sourceFindings {p : Project} {index : ℕ} {e : Element} {source : String}
    (hsource : e.source? = some source)
    (h : anyError (Rule.sourceFindings p index e) = false) :
    ∃ j < index, ∃ x, p.elements[j]? = some x ∧ x.name = source ∧ x.category = e.category := by
  unfold Rule.sourceFindings at h
  simp only [hsource] at h
  split at h
  · rename_i j found hindex hfound
    split at h
    · simp at h
    · rename_i hcategory
      split at h
      · simp at h
      · rename_i hbefore
        obtain ⟨hj, hname, hfirst⟩ := List.findIdx?_eq_some_iff_getElem.mp hindex
        have hfirst : p.elements[j] = found := by
          have hlookup : p.elements.find? (fun x => x.name = source) = some p.elements[j] :=
            List.find?_eq_some_iff_getElem.mpr ⟨hname, j, hj, rfl, by simpa using hfirst⟩
          exact Option.some.inj (hlookup.symm.trans hfound)
        refine ⟨j, by omega, found, ?_, (element?_eq_some hfound).2, not_not.mp hcategory⟩
        rw [List.getElem?_eq_getElem hj, hfirst]
  · simp at h

/-- A timeline reference without errors leads somewhere. -/
theorem targets_of_entryFindings {p : Project} {entry : Entry}
    (h : anyError (Rule.entryFindings p entry) = false) :
    (∃ e, p.element? entry.element = some e) ∧
      (∀ target, entry.relativeTarget? = some target → p.entry? target ≠ none) ∧
      ∀ relation, entry.layer = some relation → p.entry? relation.target ≠ none := by
  rw [Rule.entryFindings, anyError_append, Bool.or_eq_false_iff] at h
  obtain ⟨helement, htargets⟩ := h
  rw [anyError_ite_error_eq_false_iff, Option.isNone_iff_eq_none] at helement
  rw [anyError_flatMap_eq_false_iff] at htargets
  simp only [anyError_ite_error_eq_false_iff, Option.isNone_iff_eq_none] at htargets
  refine ⟨Option.ne_none_iff_exists'.mp helement, ?_, ?_⟩
  · intro target htarget
    exact htargets target (by simp [htarget])
  · intro relation hrelation
    exact htargets relation.target (by simp [hrelation])

/-- The references of a usable project are sound. -/
theorem Usable.references {p : Project} (h : p.Usable) : p.SoundReferences := by
  have hrule := h.check .references
  simp only [Rule.references, Rule.referenceFindings, anyError_append, Bool.or_eq_false_iff,
    anyError_flatMap_eq_false_iff] at hrule
  obtain ⟨⟨hsources, -⟩, hentries⟩ := hrule
  refine ⟨?_, fun entry hentry => (targets_of_entryFindings (hentries entry hentry)).1,
    fun entry hentry => (targets_of_entryFindings (hentries entry hentry)).2.1,
    fun entry hentry => (targets_of_entryFindings (hentries entry hentry)).2.2⟩
  intro before e after source helements hsource
  have hmem : (e, before.length) ∈ p.elements.zipIdx := by
    rw [List.mem_zipIdx_iff_getElem?]
    simp [helements]
  obtain ⟨j, hj, x, hx, hname, hcategory⟩ := exists_of_sourceFindings hsource (hsources _ hmem)
  rw [helements, List.getElem?_append_left hj] at hx
  exact ⟨x, List.mem_of_getElem? hx, hname, hcategory⟩

/-! ## What the rule on the timeline promises -/

/-- Entries refer back, and no circle was found among the starts or among the layers. -/
structure SoundTimeline (p : Project) : Prop where
  backward : ∀ i entry, p.timeline[i]? = some entry →
    ∀ target, entry.relativeTarget? = some target → ∀ j, p.entryIndex? target = some j → j ≤ i
  starts : ∀ path, p.checkAcyclic ≠ .error (.cyclicRelation path)
  layers : ∀ path, p.layers ≠ .error (.cyclicRelation path)

/-- A circle is always reported as an error. -/
theorem ne_cyclic_of_circleFindings {α : Type} {rule : String} {result : Except Error α}
    (h : anyError (Rule.circleFindings rule result) = false) (path : List String) :
    result ≠ .error (.cyclicRelation path) := by
  rintro rfl
  simp [Rule.circleFindings] at h

/-- The timeline of a usable project is sound. -/
theorem Usable.timeline {p : Project} (h : p.Usable) : p.SoundTimeline := by
  have hrule := h.check .timeline
  simp only [Rule.timeline, Rule.timelineFindings, anyError_append, Bool.or_eq_false_iff,
    anyError_flatMap_eq_false_iff] at hrule
  obtain ⟨⟨⟨-, hentries⟩, hstarts⟩, hlayers⟩ := hrule
  refine ⟨?_, ne_cyclic_of_circleFindings hstarts, ne_cyclic_of_circleFindings hlayers⟩
  intro i entry hentry target htarget j hj
  have hmem : (entry, i) ∈ p.timeline.zipIdx := List.mem_zipIdx_iff_getElem?.mpr hentry
  have hforth := hentries _ hmem
  simp only [Rule.entryTimeFindings, anyError_append, Bool.or_eq_false_iff,
    anyError_ite_error_eq_false_iff] at hforth
  simpa [Rule.refersForth, htarget, hj] using hforth.1

end Project

end Montage
