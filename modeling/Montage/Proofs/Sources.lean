import Mathlib.Data.Fintype.Pigeonhole
import Mathlib.Data.List.Chain
import Mathlib.Data.List.Perm.Subperm
import Mathlib.Logic.Relation
import Montage.Script.Clip

/-!
# Where the frame of a piece comes from

A piece of a video is cut from an element, which may be a piece again. The frame of a piece is that
of the file at the end of this chain, and it is looked for over a limited number of steps. The limit
is no restriction: an element is cut from one other element only, so a chain that ends never comes
back to an element, and the elements behind the first one are different elements of the project. A
chain that is longer than the project goes round in a circle, and then there is no frame to find.
-/

namespace Montage

open Relation

/-- The frame that an element has by itself. -/
def Element.ownFrame? : Element → Option PixelSize
  | video v => v.size
  | _ => none

namespace Project

/-- An element is the first one of the project that has a name. -/
def FirstElement (p : Project) (name : String) (e : Element) : Prop :=
  e.name = name ∧ ∃ before after, p.elements = before ++ e :: after ∧ ∀ x ∈ before, x.name ≠ name

/-- A piece of a video and the element that it is cut from. -/
inductive CutFrom (p : Project) : Element → Element → Prop
  | piece {e : Extract VideoOption} {source : Element} (h : p.FirstElement e.source source) :
    CutFrom p (.videoExtract e) source

/-- The reasons for which an element has no frame that the project tells. -/
inductive Frameless (p : Project) (e : Element) : Prop
  /-- The chain ends in a file whose frame is not known. -/
  | unsized {v : VideoFile} (chain : ReflTransGen p.CutFrom e (.video v)) (h : v.size = none)
  /-- The chain comes to a piece of an element that does not exist. -/
  | missing {x : Extract VideoOption} (chain : ReflTransGen p.CutFrom e (.videoExtract x))
      (h : ∀ y ∈ p.elements, y.name ≠ x.source)
  /-- The chain comes to an element that is no video. -/
  | unseen {x : Element} (chain : ReflTransGen p.CutFrom e x) (h : x.category ≠ .video)
  /-- The chain comes to an element that is cut from itself, by way of others or not. -/
  | circular {x : Element} (chain : ReflTransGen p.CutFrom e x) (h : TransGen p.CutFrom x x)

variable {p : Project} {e x y t : Element}

/-! ## Steps -/

/-- Looking for a name finds the first element that has it. -/
theorem element?_eq_some_iff {name : String} :
    p.element? name = some e ↔ p.FirstElement name e := by
  simp [element?, FirstElement, List.find?_eq_some_iff_append]

/-- A piece is cut from the element that is found by the name of its source. -/
theorem cutFrom_iff {piece : Extract VideoOption} :
    p.CutFrom (.videoExtract piece) y ↔ p.element? piece.source = some y := by
  rw [element?_eq_some_iff]
  exact ⟨fun ⟨h⟩ => h, .piece⟩

/-- An element is cut from one element only. -/
theorem cutFrom_rightUnique (p : Project) : Relator.RightUnique p.CutFrom := by
  rintro _ y z ⟨hy⟩ ⟨hz⟩
  rw [← element?_eq_some_iff] at hy hz
  exact Option.some.inj (hy.symm.trans hz)

/-- What something is cut from is an element of the project. -/
theorem CutFrom.mem (h : p.CutFrom x y) : y ∈ p.elements := by
  obtain ⟨-, before, after, helements, -⟩ := h
  simp [helements]

/-- An element that is cut from nothing: chains end there. -/
def Uncut (p : Project) (e : Element) : Prop :=
  ∀ y, ¬ p.CutFrom e y

/-- An element at the end of a chain has the frame that it has by itself. -/
theorem frameWithin_of_uncut (h : p.Uncut e) {steps : ℕ} (hsteps : 0 < steps) :
    p.frameWithin steps e = e.ownFrame? := by
  obtain ⟨steps, rfl⟩ := Nat.exists_eq_succ_of_ne_zero hsteps.ne'
  cases e with
  | videoExtract piece =>
    have hsource : p.element? piece.source = none :=
      Option.eq_none_iff_forall_ne_some.mpr fun y hy => h y (cutFrom_iff.mpr hy)
    simp [frameWithin, Element.ownFrame?, hsource]
  | _ => rfl

/-- A piece has the frame of what it is cut from. -/
theorem frameWithin_of_cutFrom (h : p.CutFrom x y) (steps : ℕ) :
    p.frameWithin (steps + 1) x = p.frameWithin steps y := by
  cases x with
  | videoExtract piece => simp [frameWithin, cutFrom_iff.mp h]
  | _ => cases h

/-! ## Chains that end -/

/-- A circle is never left. -/
theorem circle_of_reflTransGen (hcircle : TransGen p.CutFrom x x)
    (hchain : ReflTransGen p.CutFrom x y) : TransGen p.CutFrom y y := by
  induction hchain with
  | refl => exact hcircle
  | tail _ hcut ih =>
    -- The circle goes on with the only element that this one is cut from.
    obtain ⟨z, hz, hback⟩ := TransGen.head'_iff.mp ih
    obtain rfl := cutFrom_rightUnique p hz hcut
    exact TransGen.tail' hback hcut

/-- A chain that ends has no circle on it. -/
theorem not_circle_of_uncut (hchain : ReflTransGen p.CutFrom x t) (ht : p.Uncut t) :
    ¬ TransGen p.CutFrom x x := by
  intro hcircle
  obtain ⟨z, hz, -⟩ := TransGen.head'_iff.mp (circle_of_reflTransGen hcircle hchain)
  exact ht z hz

/-- A chain that ends, ends in the same element from each of its elements on. -/
theorem reflTransGen_of_uncut (hchain : ReflTransGen p.CutFrom e t) (ht : p.Uncut t)
    (hx : ReflTransGen p.CutFrom e x) : ReflTransGen p.CutFrom x t := by
  rcases hchain.total_of_right_unique (cutFrom_rightUnique p) hx with h | h
  · rcases h.cases_head with rfl | ⟨z, hz, -⟩
    · exact .refl
    · exact absurd hz (ht z)
  · exact h

/-- The elements behind the first one of a chain that ends are different elements of the project,
so there are at most as many of them as the project has. -/
theorem length_le_of_isChain {path : List Element} (hpath : (e :: path).IsChain p.CutFrom)
    (hchain : ReflTransGen p.CutFrom e t) (ht : p.Uncut t) :
    path.length ≤ p.elements.length := by
  have hpairs : (e :: path).Pairwise (TransGen p.CutFrom) :=
    (hpath.imp fun _ _ => TransGen.single).pairwise
  obtain ⟨hfirst, hrest⟩ := List.pairwise_cons.mp hpairs
  have hnodup : path.Nodup := by
    refine hrest.imp_of_mem fun {x y} hx _ hxy heq => ?_
    subst heq
    exact not_circle_of_uncut (reflTransGen_of_uncut hchain ht (hfirst x hx).to_reflTransGen) ht hxy
  have hmem : path ⊆ p.elements := by
    intro x hx
    obtain ⟨z, -, hz⟩ := TransGen.tail'_iff.mp (hfirst x hx)
    exact hz.mem
  exact (hnodup.subperm hmem).length_le

/-- With more steps than a path has, the frame at the end of the path is found. -/
theorem frameWithin_of_isChain {path : List Element} (hpath : (e :: path).IsChain p.CutFrom)
    (hlast : (e :: path).getLast (List.cons_ne_nil e path) = t) (ht : p.Uncut t) {steps : ℕ}
    (hsteps : path.length < steps) : p.frameWithin steps e = t.ownFrame? := by
  induction path generalizing e steps with
  | nil =>
    obtain rfl : e = t := hlast
    exact frameWithin_of_uncut ht hsteps
  | cons x path ih =>
    obtain ⟨hcut, hrest⟩ := List.isChain_cons_cons.mp hpath
    obtain ⟨steps, rfl⟩ := Nat.exists_eq_succ_of_ne_zero (Nat.ne_zero_of_lt hsteps)
    rw [frameWithin_of_cutFrom hcut]
    exact ih hrest (by simpa using hlast) (Nat.lt_of_succ_lt_succ hsteps)

/-- The limited search finds the end of every chain that has one. -/
theorem frameOf_of_uncut (hchain : ReflTransGen p.CutFrom e t) (ht : p.Uncut t) :
    p.frameOf e = t.ownFrame? := by
  obtain ⟨path, hpath, hlast⟩ := List.exists_isChain_cons_of_relationReflTransGen hchain
  have hlength := length_le_of_isChain hpath hchain ht
  exact frameWithin_of_isChain hpath hlast ht (Nat.lt_succ_of_le hlength)

/-! ## Chains without an end -/

/-- Elements that are cut from each other without an end come to a circle. -/
theorem exists_circle_of_visits {visit : ℕ → Element}
    (hvisit : ∀ k, p.CutFrom (visit k) (visit (k + 1))) :
    ∃ k, TransGen p.CutFrom (visit k) (visit k) := by
  have hlater {i j : ℕ} (hij : i < j) : TransGen p.CutFrom (visit i) (visit j) :=
    Nat.rel_of_forall_rel_succ_of_lt (TransGen p.CutFrom) (fun k => .single (hvisit k)) hij
  -- There are more visits than elements, so two of them are visits of one element.
  obtain ⟨i, j, hne, heq⟩ := Finite.exists_ne_map_eq_of_infinite
    fun k : ℕ => (⟨visit (k + 1), (hvisit k).mem⟩ : { x // x ∈ p.elements })
  have hsame : visit (i + 1) = visit (j + 1) := congrArg Subtype.val heq
  rcases Nat.lt_or_gt_of_ne hne with hij | hij
  · have hback := hlater (Nat.succ_lt_succ hij)
    rw [← hsame] at hback
    exact ⟨i + 1, hback⟩
  · have hback := hlater (Nat.succ_lt_succ hij)
    rw [hsame] at hback
    exact ⟨j + 1, hback⟩

/-- A chain ends or comes to a circle. -/
theorem exists_uncut_or_circle (p : Project) (e : Element) :
    (∃ t, ReflTransGen p.CutFrom e t ∧ p.Uncut t) ∨
      ∃ x, ReflTransGen p.CutFrom e x ∧ TransGen p.CutFrom x x := by
  by_cases hend : ∃ t, ReflTransGen p.CutFrom e t ∧ p.Uncut t
  · exact Or.inl hend
  · right
    have hnext : ∀ x, ReflTransGen p.CutFrom e x → ∃ y, p.CutFrom x y := by
      simpa [Uncut] using hend
    choose! next hnext using hnext
    have hreach (k : ℕ) : ReflTransGen p.CutFrom e (next^[k] e) := by
      induction k with
      | zero => exact .refl
      | succ k ih =>
        rw [Function.iterate_succ_apply']
        exact ih.tail (hnext _ ih)
    have hvisit (k : ℕ) : p.CutFrom (next^[k] e) (next^[k + 1] e) := by
      rw [Function.iterate_succ_apply']
      exact hnext _ (hreach k)
    obtain ⟨k, hcircle⟩ := exists_circle_of_visits hvisit
    exact ⟨_, hreach k, hcircle⟩

/-- A frame that is found is that of a file at the end of the chain. -/
theorem exists_chain_of_frameWithin {steps : ℕ} {size : PixelSize}
    (h : p.frameWithin steps e = some size) :
    ∃ v, ReflTransGen p.CutFrom e (.video v) ∧ v.size = some size := by
  induction steps generalizing e with
  | zero => simp [frameWithin] at h
  | succ steps ih =>
    cases e with
    | video v => exact ⟨v, .refl, h⟩
    | videoExtract piece =>
      rw [frameWithin] at h
      split at h
      · rename_i source hsource
        obtain ⟨v, hchain, hsize⟩ := ih h
        exact ⟨v, hchain.head (cutFrom_iff.mpr hsource), hsize⟩
      · simp at h
    | _ => simp [frameWithin] at h

/-! ## The frame of an element -/

/-- A file is cut from nothing. -/
theorem uncut_video (v : VideoFile) : p.Uncut (.video v) := by
  rintro y ⟨⟩

/-- What is no video is cut from nothing. -/
theorem uncut_of_category (h : x.category ≠ .video) : p.Uncut x := by
  rintro y ⟨-⟩
  exact h rfl

/-- What is no video has no frame of its own. -/
theorem ownFrame?_of_category (h : x.category ≠ .video) : x.ownFrame? = none := by
  cases x with
  | video v => exact absurd rfl h
  | _ => rfl

/-- A piece of an element that does not exist is cut from nothing. -/
theorem uncut_of_missing {piece : Extract VideoOption}
    (h : ∀ y ∈ p.elements, y.name ≠ piece.source) : p.Uncut (.videoExtract piece) := by
  rintro y ⟨hy⟩
  exact h y (CutFrom.piece hy).mem hy.1

/-- An element at the end of a chain that has no frame by itself is a reason to have none. -/
theorem frameless_of_uncut (hchain : ReflTransGen p.CutFrom e t) (ht : p.Uncut t)
    (hframe : t.ownFrame? = none) : p.Frameless e := by
  cases t with
  | video v => exact .unsized hchain hframe
  | videoExtract piece =>
    refine .missing hchain fun y hy hname => ?_
    have hfound : p.element? piece.source ≠ none := by
      rw [element?, Ne, List.find?_eq_none]
      exact fun hnone => hnone y hy (by simpa using hname)
    obtain ⟨source, hsource⟩ := Option.ne_none_iff_exists'.mp hfound
    exact ht source (cutFrom_iff.mpr hsource)
  | _ => exact .unseen hchain (by simp [Element.category])

/-- An element with a reason to have no frame has none. -/
theorem Frameless.frameOf_eq_none (h : p.Frameless e) : p.frameOf e = none := by
  cases h with
  | unsized hchain hsize => exact (frameOf_of_uncut hchain (uncut_video _)).trans hsize
  | missing hchain hmissing => exact frameOf_of_uncut hchain (uncut_of_missing hmissing)
  | unseen hchain hcategory =>
    rw [frameOf_of_uncut hchain (uncut_of_category hcategory)]
    exact ownFrame?_of_category hcategory
  | circular hchain hcircle =>
    refine Option.eq_none_iff_forall_ne_some.mpr fun size hsize => ?_
    obtain ⟨v, hv, -⟩ := exists_chain_of_frameWithin hsize
    have hreached := reflTransGen_of_uncut hv (uncut_video v) hchain
    exact not_circle_of_uncut hreached (uncut_video v) hcircle

/-- The frame of an element is that of the file at the end of its chain of cuts, however long the
chain is. There is no frame exactly if the chain ends in a file whose frame is not known, comes to a
source that does not exist or is no video, or goes round in a circle. -/
theorem frameOf_follows_cuts (p : Project) (e : Element) :
    (∀ size, p.frameOf e = some size ↔
      ∃ v : VideoFile, ReflTransGen p.CutFrom e (.video v) ∧ v.size = some size) ∧
    (p.frameOf e = none ↔ p.Frameless e) := by
  refine ⟨fun size => ⟨exists_chain_of_frameWithin, ?_⟩, fun hnone => ?_, Frameless.frameOf_eq_none⟩
  · rintro ⟨v, hchain, hsize⟩
    exact (frameOf_of_uncut hchain (uncut_video v)).trans hsize
  · rcases exists_uncut_or_circle p e with ⟨t, hchain, ht⟩ | ⟨x, hchain, hcircle⟩
    · exact frameless_of_uncut hchain ht ((frameOf_of_uncut hchain ht).symm.trans hnone)
    · exact .circular hchain hcircle

-- The chain of an element outside of the project may go through all elements of the project.
example : (Project.mk "nested"
    [.videoExtract ⟨"outer", "middle", .zero, .zero, []⟩,
      .videoExtract ⟨"middle", "inner", .zero, .zero, []⟩,
      .video ⟨"inner", "clips/inner.mp4", some ⟨1280, 720⟩, []⟩] [] []).frameOf
    (.videoExtract ⟨"guest", "outer", .zero, .zero, []⟩) = some ⟨1280, 720⟩ := by decide

end Project

end Montage
