import Montage.Error
import Montage.Project

/-!
# Layers

An entry that is stacked above another one is one layer higher, an entry stacked under another
one is one layer lower, and all other entries are on layer zero. The layer of an entry is found by
following relations from entry to entry and adding up their steps; a search that comes back to a
name runs in a circle. Clips are composed from the lowest layer to the highest; entries of one layer
keep their order.
-/

namespace Montage

/-- Where the search for a layer stands. -/
structure LayerSearch where
  /-- The steps of the relations followed so far, added up. -/
  layer : Int
  /-- The names of the entries reached so far, in order. -/
  passed : List String
  /-- The entry reached last. -/
  entry : Entry
  deriving DecidableEq, Repr

namespace LayerSearch

/-- Begins at an entry. -/
def start (entry : Entry) : LayerSearch :=
  ⟨0, [entry.name], entry⟩

/-- Goes on to the entry that a relation refers to, which must exist and must not have been reached
before. -/
def follow (p : Project) (s : LayerSearch) (relation : LayerRelation) : Except Error LayerSearch :=
  match p.entry? relation.target with
  | none => .error (.missingReference .placement relation.target)
  | some next =>
    if next.name ∈ s.passed then .error (.cyclicRelation (s.passed ++ [next.name]))
    else .ok ⟨s.layer + relation.step, s.passed ++ [next.name], next⟩

/-- The number of entries whose names were not reached. -/
def ahead (p : Project) (s : LayerSearch) : Nat :=
  (p.timeline.filter fun e => e.name ∉ s.passed).length

/-- What a step of the search leads to: an entry of the timeline with a new name. -/
theorem follow_eq_ok {p : Project} {s t : LayerSearch} {relation : LayerRelation}
    (h : s.follow p relation = .ok t) :
    p.entry? relation.target = some t.entry ∧ t.entry.name ∉ s.passed ∧
      t.passed = s.passed ++ [t.entry.name] ∧ t.layer = s.layer + relation.step := by
  unfold follow at h
  cases hentry : p.entry? relation.target with
  | none => simp [hentry] at h
  | some next =>
    simp only [hentry] at h
    split at h
    · simp at h
    · rename_i hfresh
      simp only [Except.ok.injEq] at h
      subst h
      exact ⟨rfl, hfresh, rfl, rfl⟩

/-- Every step of the search reaches a new name. -/
theorem ahead_lt {p : Project} {s t : LayerSearch} {relation : LayerRelation}
    (h : s.follow p relation = .ok t) : t.ahead p < s.ahead p := by
  obtain ⟨hentry, hfresh, hpassed, -⟩ := follow_eq_ok h
  have hmem : t.entry ∈ p.timeline.filter fun e => e.name ∉ s.passed :=
    List.mem_filter.mpr ⟨List.mem_of_find?_eq_some hentry, by simpa using hfresh⟩
  have hfilter : (p.timeline.filter fun e => e.name ∉ t.passed) =
      (p.timeline.filter fun e => e.name ∉ s.passed).filter fun e => e.name ≠ t.entry.name := by
    rw [List.filter_filter]
    congr 1
    funext e
    simp [hpassed, and_comm]
  rw [ahead, ahead, hfilter, List.length_filter_lt_length_iff_exists]
  exact ⟨t.entry, hmem, by simp⟩

/-- Follows relations to their end and yields the sum of their steps. -/
def run (p : Project) (s : LayerSearch) : Except Error Int :=
  match s.entry.layer with
  | none => .ok s.layer
  | some relation =>
    match hnext : s.follow p relation with
    | .error e => .error e
    | .ok next =>
      have := ahead_lt hnext
      next.run p
termination_by s.ahead p

end LayerSearch

namespace Project

/-- The layer of an entry. -/
def layerOf (p : Project) (entry : Entry) : Except Error Int :=
  (LayerSearch.start entry).run p

/-- The layers of all entries, in the order of the timeline. -/
def layers (p : Project) : Except Error (List Int) :=
  p.timeline.mapM p.layerOf

end Project

/-- The indices of some layers from the lowest layer to the highest. -/
def compositionOrder (layers : List Int) : List Nat :=
  (layers.zipIdx.mergeSort fun a b => a.1 ≤ b.1).map Prod.snd

end Montage
