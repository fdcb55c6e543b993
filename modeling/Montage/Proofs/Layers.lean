import Mathlib.Data.List.Perm.Subperm
import Mathlib.Logic.Relation
import Montage.Proofs.Chain
import Montage.Proofs.Names

/-!
# Layers follow relations

A layer is found by adding up steps on the way from an entry to the end of its chain of relations,
but what it means is said from the other end: an entry is one layer above or under the entry that it
refers to. Both agree, because the search from that entry goes the same way with fewer names to
watch for. No name is passed twice, so the sum stays below the number of entries all the way. Where
entries have names of their own, passing a name is passing an entry, and the search fails exactly as
the chain of entries does.
-/

namespace Montage

open Chain Diagnostic

namespace LayerSearch

variable {p : Project} {s t : LayerSearch} {relation : LayerRelation}

/-- A search whose entry has no relation is at its end. -/
theorem run_of_none (h : s.entry.layer = none) : s.run p = .ok s.layer := by
  rw [run, h]

/-- One step of the search. -/
def Step (p : Project) (s t : LayerSearch) : Prop :=
  ∃ relation, s.entry.layer = some relation ∧ s.follow p relation = .ok t

/-- A search finds after a step what it would have found before. -/
theorem Step.run_eq (h : Step p s t) : s.run p = t.run p := by
  obtain ⟨relation, hlayer, hfollow⟩ := h
  rw [run, hlayer]
  dsimp only
  split
  · rename_i e hfailed
    simp [hfollow] at hfailed
  · rename_i next hnext
    rw [Except.ok.inj (hfollow.symm.trans hnext)]

/-- A search that finds a layer follows the relation of its entry. -/
theorem exists_follow_of_run {l : ℤ} (h : s.run p = .ok l)
    (hlayer : s.entry.layer = some relation) :
    ∃ t, s.follow p relation = .ok t ∧ t.run p = .ok l := by
  rw [run, hlayer] at h
  dsimp only at h
  split at h
  · simp at h
  · rename_i next hfollow
    exact ⟨next, hfollow, h⟩

/-- A search goes on to an entry with a new name. -/
theorem follow_of_fresh {next : Entry} (hnext : p.entry? relation.target = some next)
    (hfresh : next.name ∉ s.passed) :
    s.follow p relation = .ok ⟨s.layer + relation.step, s.passed ++ [next.name], next⟩ := by
  simp [follow, hnext, hfresh]

/-! ## Bounds -/

/-- What is true of a search at any time: the names passed are distinct names of entries, and the
sum has no more steps than were made between them. -/
structure Sound (p : Project) (s : LayerSearch) : Prop where
  nodup : s.passed.Nodup
  subset : s.passed ⊆ p.timeline.map Entry.name
  layer_lt : s.layer.natAbs < s.passed.length

/-- A search begins soundly at every entry of the timeline. -/
theorem sound_start {entry : Entry} (h : entry ∈ p.timeline) : (start entry).Sound p := by
  refine ⟨List.nodup_singleton _, ?_, Nat.zero_lt_one⟩
  simpa [start] using ⟨entry, h, rfl⟩

/-- Following a relation moves the sum by one at most. -/
theorem natAbs_add_step_le (l : ℤ) (relation : LayerRelation) :
    (l + relation.step).natAbs ≤ l.natAbs + 1 := by
  cases relation <;> simp only [LayerRelation.step] <;> omega

/-- A step keeps a search sound. -/
theorem Sound.step (h : s.Sound p) (hstep : Step p s t) : t.Sound p := by
  obtain ⟨relation, -, hfollow⟩ := hstep
  obtain ⟨hentry, hfresh, hpassed, hlayer⟩ := follow_eq_ok hfollow
  have hmem := (Project.entry?_eq_some hentry).1
  refine ⟨?_, ?_, ?_⟩
  · rw [hpassed, ← List.concat_eq_append]
    exact h.nodup.concat hfresh
  · rw [hpassed, List.append_subset]
    exact ⟨h.subset, List.cons_subset.mpr ⟨List.mem_map_of_mem hmem, List.nil_subset _⟩⟩
  · have hbound := natAbs_add_step_le s.layer relation
    have hlt := h.layer_lt
    rw [hlayer, hpassed, List.length_append, List.length_singleton]
    omega

/-- A search stays sound. -/
theorem Sound.reaches (h : s.Sound p) (hreaches : Relation.ReflTransGen (Step p) s t) :
    t.Sound p := by
  induction hreaches with
  | refl => exact h
  | tail hpath hstep ih => exact ih.step hstep

/-- A search passes no more names than there are entries. -/
theorem Sound.length_le (h : s.Sound p) : s.passed.length ≤ p.timeline.length := by
  simpa using h.nodup.length_le_of_subset h.subset

/-- No relation takes the sum further from zero than there are entries. -/
theorem Sound.natAbs_add_step_le (h : s.Sound p) (relation : LayerRelation) :
    (s.layer + relation.step).natAbs ≤ p.timeline.length := by
  have hstep := LayerSearch.natAbs_add_step_le s.layer relation
  have hlt := h.layer_lt
  have hle := h.length_le
  omega

/-- No search makes steps for ever. -/
theorem wellFounded_step (p : Project) : WellFounded fun t s => Step p s t := by
  refine Subrelation.wf ?_ (measure (ahead p)).wf
  rintro t s ⟨relation, -, hfollow⟩
  exact ahead_lt hfollow

/-- A search that finds a layer has reached an entry without a relation, and the layer is the sum
at that point. -/
theorem exists_reaches_of_run {l : ℤ} (h : s.run p = .ok l) :
    ∃ t, Relation.ReflTransGen (Step p) s t ∧ t.entry.layer = none ∧ t.layer = l := by
  fun_induction s.run p with
  | case1 s hlayer => exact ⟨s, .refl, hlayer, Except.ok.inj h⟩
  | case2 s relation hlayer e hfollow => simp at h
  | case3 s relation hlayer next hfollow hahead ih =>
    obtain ⟨t, hreaches, hend, hsum⟩ := ih h
    exact ⟨t, .head ⟨relation, hlayer, hfollow⟩ hreaches, hend, hsum⟩

/-! ## Searches from other entries -/

/-- A search that has passed fewer names finds what another search from the same entry finds. -/
theorem run_of_subset {l : ℤ} (h : s.run p = .ok l) (hentry : t.entry = s.entry)
    (hpassed : t.passed ⊆ s.passed) : t.run p = .ok (t.layer + (l - s.layer)) := by
  fun_induction s.run p generalizing t with
  | case1 s hlayer =>
    rw [run_of_none (by rw [hentry, hlayer]), ← Except.ok.inj h]
    congr 1
    omega
  | case2 s relation hlayer e hfollow => simp at h
  | case3 s relation hlayer next hfollow hahead ih =>
    obtain ⟨hnext, hfresh, hnames, hsum⟩ := follow_eq_ok hfollow
    have hstep : Step p t ⟨t.layer + relation.step, t.passed ++ [next.entry.name], next.entry⟩ :=
      ⟨relation, by rw [hentry, hlayer], follow_of_fresh hnext fun hmem => hfresh (hpassed hmem)⟩
    have hsubset : t.passed ++ [next.entry.name] ⊆ next.passed := by
      rw [hnames]
      exact List.append_subset.mpr
        ⟨List.subset_append_of_subset_left _ hpassed, List.subset_append_right _ _⟩
    have hrest := ih h (t := ⟨t.layer + relation.step, _, next.entry⟩) rfl hsubset
    rw [hstep.run_eq, hrest]
    congr 1
    dsimp only
    omega

end LayerSearch

namespace Project

variable {p : Project} {i j : ℕ} {entry next : Entry} {relation : LayerRelation}

/-- The layer of an entry with a relation is one step from the layer of the entry it refers to,
which is the first one of its name. -/
theorem layerOf_of_relation {l : ℤ} (h : p.layerOf entry = .ok l)
    (hrelation : entry.layer = some relation) :
    ∃ i next, p.FirstNamed relation.target i ∧ p.timeline[i]? = some next ∧
      p.layerOf next = .ok (l - relation.step) := by
  obtain ⟨t, hfollow, hrun⟩ := LayerSearch.exists_follow_of_run h hrelation
  obtain ⟨hnext, -, hpassed, hlayer⟩ := LayerSearch.follow_eq_ok hfollow
  have hsubset : (LayerSearch.start t.entry).passed ⊆ t.passed := by
    rw [hpassed]
    exact List.subset_append_right _ _
  have hrestart := LayerSearch.run_of_subset hrun (t := .start t.entry) rfl hsubset
  obtain ⟨i, hfirst, hi⟩ := entry?_eq_some_iff.mp hnext
  refine ⟨i, t.entry, hfirst, hi, hrestart.trans ?_⟩
  rw [hlayer]
  simp only [LayerSearch.start, Int.zero_add]

/-- Every layer is closer to zero than there are entries. -/
theorem natAbs_layerOf_lt {l : ℤ} (hentry : entry ∈ p.timeline) (h : p.layerOf entry = .ok l) :
    l.natAbs < p.timeline.length := by
  obtain ⟨t, hreaches, -, rfl⟩ := LayerSearch.exists_reaches_of_run h
  have hsound := (LayerSearch.sound_start hentry).reaches hreaches
  exact hsound.layer_lt.trans_le hsound.length_le

/-! ## Chains of relations -/

/-- The entry that an entry is stacked above or under. -/
def layerLink (p : Project) (i : ℕ) : Link :=
  match p.timeline[i]? with
  | none => .stop
  | some entry =>
    match entry.layer with
    | none => .stop
    | some relation =>
      match p.entryIndex? relation.target with
      | some j => .next j
      | none => .missing relation.target

/-- An entry without a relation ends a chain. -/
theorem layerLink_of_none (hentry : p.timeline[i]? = some entry) (hlayer : entry.layer = none) :
    p.layerLink i = .stop := by
  simp [layerLink, hentry, hlayer]

/-- A relation to a name without an entry breaks a chain. -/
theorem layerLink_of_missing (hentry : p.timeline[i]? = some entry)
    (hlayer : entry.layer = some relation) (hnone : p.entry? relation.target = none) :
    p.layerLink i = .missing relation.target := by
  rw [← entryIndex?_eq_none_iff] at hnone
  simp [layerLink, hentry, hlayer, hnone]

/-- A relation to an entry leads to the index of that entry. -/
theorem exists_layerLink_eq_next (hentry : p.timeline[i]? = some entry)
    (hlayer : entry.layer = some relation) (hnext : p.entry? relation.target = some next) :
    ∃ j, p.layerLink i = .next j ∧ p.timeline[j]? = some next := by
  obtain ⟨j, hfirst, hj⟩ := entry?_eq_some_iff.mp hnext
  refine ⟨j, ?_, hj⟩
  simp [layerLink, hentry, hlayer, entryIndex?_eq_some_iff.mpr hfirst]

/-- Where entries have distinct names, the names at some indices tell the indices. -/
theorem mem_entryNames_iff (hdistinct : (p.timeline.map Entry.name).Nodup)
    (hentry : p.timeline[i]? = some entry) (indices : List ℕ) :
    entry.name ∈ p.entryNames indices ↔ i ∈ indices := by
  rw [entryNames, List.mem_filterMap]
  constructor
  · rintro ⟨k, hk, hname⟩
    have hi : i < (p.timeline.map Entry.name).length := by
      simpa using (List.getElem?_eq_some_iff.mp hentry).1
    have hsame : (p.timeline.map Entry.name)[i]? = (p.timeline.map Entry.name)[k]? := by
      rw [List.getElem?_map, List.getElem?_map, hname, hentry, Option.map_some]
    rwa [(List.getElem?_inj hi hdistinct).mp hsame]
  · intro hi
    exact ⟨i, hi, by rw [hentry, Option.map_some]⟩

end Project

namespace LayerSearch

variable {p : Project} {s t : LayerSearch} {relation : LayerRelation} {first i j : ℕ}
  {passed : List ℕ}

/-- A search that began at one index has come to an index that it has not passed before. The names
that it keeps are those of the indices passed and of this one. -/
structure Trail (p : Project) (s : LayerSearch) (first : ℕ) (passed : List ℕ) (i : ℕ) : Prop where
  passage : Passage p.layerLink first passed i
  fresh : i ∉ passed
  entry : p.timeline[i]? = some s.entry
  names : s.passed = p.entryNames (passed ++ [i])

/-- A search begins at its entry. -/
theorem trail_start {entry : Entry} (h : p.timeline[i]? = some entry) :
    (start entry).Trail p i [] i :=
  ⟨passage_nil _ _, List.not_mem_nil, h, by simp [start, Project.entryNames, h]⟩

/-- A search that reaches a new name has come to a new index. -/
theorem Trail.follow (h : s.Trail p first passed i) (hdistinct : (p.timeline.map Entry.name).Nodup)
    (hfollow : s.follow p relation = .ok t) (hlink : p.layerLink i = .next j)
    (hj : p.timeline[j]? = some t.entry) : t.Trail p first (passed ++ [i]) j := by
  obtain ⟨-, hfresh, hnames, -⟩ := follow_eq_ok hfollow
  rw [h.names, Project.mem_entryNames_iff hdistinct hj] at hfresh
  refine ⟨h.passage.next h.fresh hlink, hfresh, hj, ?_⟩
  rw [hnames, h.names, Project.entryNames_concat hj]

/-- Where entries have distinct names, a search finds a layer only if the chain of relations ends,
and fails as the chain does otherwise. -/
theorem run_outcome (hdistinct : (p.timeline.map Entry.name).Nodup)
    (htrail : s.Trail p first passed i) :
    Outcome p p.layerLink first i (fun _ => Ends p.layerLink i) (s.run p) := by
  fun_induction s.run p generalizing passed i with
  | case1 s hlayer => exact .stop (Project.layerLink_of_none htrail.entry hlayer)
  | case2 s relation hlayer e hfollow =>
    unfold LayerSearch.follow at hfollow
    cases hnext : p.entry? relation.target with
    | none =>
      simp only [hnext, Except.error.injEq] at hfollow
      subst hfollow
      exact Report.missing (.missing (Project.layerLink_of_missing htrail.entry hlayer hnext))
    | some next =>
      obtain ⟨j, hlink, hj⟩ := Project.exists_layerLink_eq_next htrail.entry hlayer hnext
      simp only [hnext] at hfollow
      split at hfollow
      · rename_i hpassed
        rw [htrail.names, Project.mem_entryNames_iff hdistinct hj] at hpassed
        rw [Except.error.injEq, htrail.names, ← Project.entryNames_concat hj] at hfollow
        subst hfollow
        exact Report.circle ((htrail.passage.next htrail.fresh hlink).lasso hpassed)
      · simp at hfollow
  | case3 s relation hlayer next hfollow hahead ih =>
    obtain ⟨hnext, -⟩ := follow_eq_ok hfollow
    obtain ⟨j, hlink, hj⟩ := Project.exists_layerLink_eq_next htrail.entry hlayer hnext
    have hrest := ih (htrail.follow hdistinct hfollow hlink hj)
    exact hrest.of_next hlink fun _ hends => .next hlink hends

end LayerSearch

namespace Project

section Distinct

variable {p : Project} {i : ℕ} {entry : Entry} (hdistinct : (p.timeline.map Entry.name).Nodup)
  (hentry : p.timeline[i]? = some entry)

include hdistinct hentry

/-- Where entries have distinct names, an entry has a layer exactly when its chain ends. -/
theorem exists_layerOf_iff :
    (∃ l, p.layerOf entry = .ok l) ↔ Ends p.layerLink i := by
  have houtcome := LayerSearch.run_outcome hdistinct (LayerSearch.trail_start hentry)
  rw [← layerOf] at houtcome
  cases hlayer : p.layerOf entry with
  | ok l =>
    rw [hlayer] at houtcome
    exact iff_of_true ⟨l, rfl⟩ houtcome
  | error e =>
    rw [hlayer] at houtcome
    exact iff_of_false (by simp) (Report.not_ends houtcome)

/-- Where entries have distinct names, the search for a layer fails exactly as the chain of its
entry does. -/
theorem layerOf_eq_error_iff (e : Error) :
    p.layerOf entry = .error e ↔ Report p p.layerLink i i e :=
  (LayerSearch.run_outcome hdistinct (LayerSearch.trail_start hentry)).error_iff (fun _ h => h) e

/-- Where entries have distinct names, a circle is reported of the chains that never end. -/
theorem exists_cyclicRelation_iff :
    (∃ path, p.layerOf entry = .error (.cyclicRelation path)) ↔ Endless p.layerLink i := by
  constructor
  · rintro ⟨path, herror⟩
    rw [layerOf_eq_error_iff hdistinct hentry, report_circle_iff] at herror
    obtain ⟨passed, again, hlasso, -⟩ := herror
    exact hlasso.endless
  · intro hendless
    cases hlayer : p.layerOf entry with
    | ok l =>
      have hends := (exists_layerOf_iff hdistinct hentry).mp ⟨l, hlayer⟩
      exact absurd hendless hends.not_endless
    | error e =>
      -- A missing name would end the chain, so a circle is all that can be reported.
      rcases (layerOf_eq_error_iff hdistinct hentry e).mp hlayer with hbreaks | hlasso
      · exact absurd hendless hbreaks.not_endless
      · exact ⟨_, rfl⟩

end Distinct

/-- The search for a layer comes to an end. The layer that it finds is zero for an entry without a
relation and one more or one less than the layer of the entry referred to; it is closer to zero than
there are entries, and no sum on the way leaves the range of a machine integer. Where entries have
distinct names, which the rule on names sees to, the search fails exactly if the chain of relations
comes to a missing name, or never ends, and then it reports the names along the chain up to and
including the first one that is met again. -/
theorem layerOf_follows_relations {p : Project} {i : ℕ} {entry : Entry}
    (hentry : p.timeline[i]? = some entry) :
    WellFounded (fun t s => LayerSearch.Step p s t) ∧
      (∀ l, p.layerOf entry = .ok l →
        l.natAbs < p.timeline.length ∧ (entry.layer = none → l = 0) ∧
        (∀ target, entry.layer = some (.above target) →
          ∃ j next, p.FirstNamed target j ∧ p.timeline[j]? = some next ∧
            p.layerOf next = .ok (l - 1)) ∧
        ∀ target, entry.layer = some (.under target) →
          ∃ j next, p.FirstNamed target j ∧ p.timeline[j]? = some next ∧
            p.layerOf next = .ok (l + 1)) ∧
      (p.timeline.length ≤ Int32.maxValue.toInt → ∀ s relation,
        Relation.ReflTransGen (LayerSearch.Step p) (.start entry) s →
        s.entry.layer = some relation →
        Int32.minValue.toInt ≤ s.layer + relation.step ∧
          s.layer + relation.step ≤ Int32.maxValue.toInt) ∧
      (anyError (Rule.naming.check p) = false → (p.timeline.map Entry.name).Nodup) ∧
      ((p.timeline.map Entry.name).Nodup →
        ((∃ l, p.layerOf entry = .ok l) ↔ Ends p.layerLink i) ∧
        (∀ name, p.layerOf entry = .error (.missingReference .placement name) ↔
          Breaks p.layerLink name i) ∧
        ((∃ path, p.layerOf entry = .error (.cyclicRelation path)) ↔ Endless p.layerLink i) ∧
        ∀ path, p.layerOf entry = .error (.cyclicRelation path) ↔
          ∃ passed again, Lasso p.layerLink i passed again ∧
            path = p.entryNames (passed ++ [again])) := by
  have hmem : entry ∈ p.timeline := List.mem_of_getElem? hentry
  refine ⟨LayerSearch.wellFounded_step p, fun l h => ⟨natAbs_layerOf_lt hmem h, ?_, ?_, ?_⟩, ?_,
    fun h => (soundNames_of_check h).distinctEntries, fun hdistinct => ?_⟩
  · intro hnone
    exact (Except.ok.inj ((LayerSearch.run_of_none hnone).symm.trans h)).symm
  · intro target habove
    exact layerOf_of_relation h habove
  · intro target hunder
    have hnext := layerOf_of_relation h hunder
    rwa [LayerRelation.step, Int.sub_neg] at hnext
  · intro hsize s relation hreaches hlayer
    have hsound := (LayerSearch.sound_start hmem).reaches hreaches
    have hbound := hsound.natAbs_add_step_le relation
    have hmax : Int32.maxValue.toInt = 2147483647 := rfl
    have hmin : Int32.minValue.toInt = -2147483648 := rfl
    omega
  · have herror := layerOf_eq_error_iff hdistinct hentry
    refine ⟨exists_layerOf_iff hdistinct hentry, fun name => ?_,
      exists_cyclicRelation_iff hdistinct hentry, fun path => ?_⟩
    · rw [herror, report_missing_iff]
    · rw [herror, report_circle_iff]

/-- A film with an entry above one that is under another, two entries above each other, and an entry
above none. -/
def collage : Project where
  outputName := "collage"
  elements := [.text ⟨"scrap", "Snip", []⟩]
  groups := []
  timeline :=
    [⟨"#1", "scrap", .implicit, none, none⟩,
      ⟨"#2", "scrap", .implicit, none, some (.under "#1")⟩,
      ⟨"#3", "scrap", .implicit, none, some (.above "#2")⟩,
      ⟨"#4", "scrap", .implicit, none, some (.above "#5")⟩,
      ⟨"#5", "scrap", .implicit, none, some (.above "#4")⟩,
      ⟨"#6", "scrap", .implicit, none, some (.above "#7")⟩]

/-- The third entry is back on layer zero, so the second one is under it; the next two have no
layer, nor has the last. -/
theorem collage_layers :
    (∃ j next, collage.FirstNamed "#2" j ∧ collage.timeline[j]? = some next ∧
      collage.layerOf next = .ok (-1)) ∧
      collage.layerOf ⟨"#4", "scrap", .implicit, none, some (.above "#5")⟩ =
        .error (.cyclicRelation ["#4", "#5", "#4"]) ∧
      collage.layerOf ⟨"#6", "scrap", .implicit, none, some (.above "#7")⟩ =
        .error (.missingReference .placement "#7") := by
  have hdistinct : (collage.timeline.map Entry.name).Nodup := by decide
  have hlasso : Lasso collage.layerLink 3 [3, 4] 3 := ⟨rfl, by decide, by decide, by decide⟩
  have hbreaks : Breaks collage.layerLink "#7" 5 := .missing rfl
  refine ⟨?_, ?_, ?_⟩
  · obtain ⟨-, hlayers, -⟩ := layerOf_follows_relations (p := collage) (i := 2) rfl
    exact (hlayers 0 (by decide +kernel)).2.2.1 "#2" rfl
  · obtain ⟨-, -, -, -, hfails⟩ := layerOf_follows_relations (p := collage) (i := 3) rfl
    exact ((hfails hdistinct).2.2.2 _).mpr ⟨_, _, hlasso, by decide⟩
  · obtain ⟨-, -, -, -, hfails⟩ := layerOf_follows_relations (p := collage) (i := 5) rfl
    exact ((hfails hdistinct).2.1 _).mpr hbreaks

end Project

end Montage
