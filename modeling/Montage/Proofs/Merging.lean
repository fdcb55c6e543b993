import Mathlib.Data.List.Basic
import Montage.Options.Audio
import Montage.Options.Merge
import Montage.Options.Text
import Montage.Options.Video

/-!
# What merging keeps

Merging walks over candidates, remembers the keys it has met, and sorts what it let through. The
walk keeps exactly the first candidate of every key, in the order in which the keys are met, and the
sort is stable: it moves the options that have a rank to the front and leaves the others in the
order of the walk. In the categories of the library options of one rank compete, so no two options
of a rank are left, and the candidates determine the result. Merging the same candidates once more
behind a merged list changes nothing, since no key is new and the list is sorted.
-/

namespace Montage

open OptionCategory

variable {O : Type} [OptionCategory O]

/-! ## The walk over candidates -/

/-- Competing options are only dropped. -/
theorem firstOfEachKey_sublist (taken : List (Key O)) (options : List O) :
    (firstOfEachKey taken options).Sublist options := by
  induction options generalizing taken with
  | nil => exact .slnil
  | cons o options ih =>
    rw [firstOfEachKey]
    split
    · exact (ih taken).cons o
    · exact (ih _).cons_cons o

/-- Of the options with a key, the walk keeps the first one and no other, and none at all if the key
was taken before. -/
theorem filter_key_firstOfEachKey (taken : List (Key O)) (options : List O) (k : Key O) :
    (firstOfEachKey taken options).filter (fun o => key o = k) =
      if k ∈ taken then [] else (options.find? fun o => key o = k).toList := by
  induction options generalizing taken with
  | nil => simp [firstOfEachKey]
  | cons o options ih =>
    rw [firstOfEachKey, List.find?_cons]
    by_cases htaken : key o ∈ taken
    · rw [if_pos htaken, ih]
      by_cases hk : key o = k
      · simp [← hk, htaken]
      · simp [hk]
    · rw [if_neg htaken, List.filter_cons, ih]
      by_cases hk : key o = k
      · simp [← hk, htaken]
      · simp [hk, Ne.symm hk]

/-- No option that is kept has a key that was taken before. -/
theorem key_not_mem_of_mem_firstOfEachKey {taken : List (Key O)} {options : List O} {o : O}
    (h : o ∈ firstOfEachKey taken options) : key o ∉ taken := by
  intro htaken
  have hmem : o ∈ (firstOfEachKey taken options).filter fun x => key x = key o :=
    List.mem_filter.mpr ⟨h, by simp⟩
  rw [filter_key_firstOfEachKey, if_pos htaken] at hmem
  exact List.not_mem_nil hmem

/-- Where some options first have a key. -/
def firstPlace (options : List O) (k : Key O) : ℕ :=
  options.findIdx fun o => key o = k

/-- A key that an option does not have is first met after it. -/
theorem firstPlace_cons_of_ne {o : O} {options : List O} {k : Key O} (h : k ≠ key o) :
    firstPlace (o :: options) k = firstPlace options k + 1 := by
  simp [firstPlace, List.findIdx_cons, Ne.symm h]

/-- The options that are kept stand in the order in which their keys are first met. -/
theorem pairwise_firstOfEachKey (taken : List (Key O)) (options : List O) :
    (firstOfEachKey taken options).Pairwise fun a b =>
      firstPlace options (key a) < firstPlace options (key b) := by
  induction options generalizing taken with
  | nil => exact .nil
  | cons o options ih =>
    -- In front of one more option, keys that it does not have are met one place later.
    have hlater (taken : List (Key O)) (htaken : key o ∈ taken) :
        (firstOfEachKey taken options).Pairwise fun a b =>
          firstPlace (o :: options) (key a) < firstPlace (o :: options) (key b) := by
      refine (ih taken).imp_of_mem fun ha hb hab => ?_
      rw [firstPlace_cons_of_ne (ne_of_mem_of_not_mem htaken
          (key_not_mem_of_mem_firstOfEachKey ha)).symm,
        firstPlace_cons_of_ne (ne_of_mem_of_not_mem htaken
          (key_not_mem_of_mem_firstOfEachKey hb)).symm]
      exact Nat.succ_lt_succ hab
    rw [firstOfEachKey]
    split
    · rename_i htaken
      exact hlater taken htaken
    · refine .cons (fun b hb => ?_) (hlater _ List.mem_cons_self)
      have hne : key b ≠ key o := fun heq =>
        key_not_mem_of_mem_firstOfEachKey hb (heq ▸ List.mem_cons_self)
      rw [firstPlace_cons_of_ne hne]
      simp [firstPlace, List.findIdx_cons]

/-! ## The sort -/

/-- Options are sorted by an order of presentation: of three options in order, the first may be
presented in front of the last. -/
theorem presentedBefore_trans (a b c : O) (hab : presentedBefore a b = true)
    (hbc : presentedBefore b c = true) : presentedBefore a c = true := by
  unfold presentedBefore at *
  revert hab hbc
  cases rank a <;> cases rank b <;> cases rank c <;> simp
  omega

/-- Of two options, one may be presented in front of the other. -/
theorem presentedBefore_total (a b : O) :
    (presentedBefore a b || presentedBefore b a) = true := by
  unfold presentedBefore
  cases rank a <;> cases rank b <;> simp [Nat.le_total]

/-- Merged options are the winners of the walk, in another order. -/
theorem mergeOptions_perm (own shared : List O) :
    (mergeOptions own shared).Perm (firstOfEachKey [] (own ++ shared)) :=
  List.mergeSort_perm _ _

/-- Merged options are in the order of presentation. -/
theorem pairwise_mergeOptions (own shared : List O) :
    (mergeOptions own shared).Pairwise fun a b => presentedBefore a b = true :=
  List.pairwise_mergeSort presentedBefore_trans presentedBefore_total _

/-- Merging invents no option. -/
theorem mem_of_mem_mergeOptions {own shared : List O} {o : O}
    (h : o ∈ mergeOptions own shared) : o ∈ own ∨ o ∈ shared := by
  rw [(mergeOptions_perm own shared).mem_iff] at h
  exact List.mem_append.1 ((firstOfEachKey_sublist [] _).subset h)

/-- Merged options have the options without a rank in the order of the walk. -/
theorem filter_unranked_mergeOptions (own shared : List O) :
    (mergeOptions own shared).filter (fun o => (rank o).isNone) =
      (firstOfEachKey [] (own ++ shared)).filter fun o => (rank o).isNone := by
  let winners := firstOfEachKey [] (own ++ shared)
  have hsorted : (winners.filter fun o => (rank o).isNone).Pairwise fun a b =>
      presentedBefore a b = true := by
    rw [List.pairwise_filter]
    refine List.pairwise_of_forall fun a b ha hb => ?_
    simp_all [presentedBefore]
  -- A sorted part of the winners stays as it is, and nothing else without a rank is there.
  have hsublist := (List.sublist_mergeSort presentedBefore_trans presentedBefore_total hsorted
    List.filter_sublist).filter fun o => (rank o).isNone
  rw [List.filter_filter] at hsublist
  simp only [Bool.and_self] at hsublist
  exact (hsublist.eq_of_length
    ((mergeOptions_perm own shared).filter fun o => (rank o).isNone).length_eq.symm).symm

/-- A list in which what passes a test comes first is what passes and then what does not. -/
theorem eq_filter_append_filter {α : Type} {test : α → Bool} {xs : List α}
    (h : xs.Pairwise fun a b => test b = true → test a = true) :
    xs = xs.filter test ++ xs.filter fun x => !test x := by
  induction xs with
  | nil => rfl
  | cons x xs ih =>
    rw [List.pairwise_cons] at h
    cases hx : test x with
    | true => simpa [hx] using ih h.2
    | false =>
      have hnone : ∀ y ∈ xs, test y = false := by
        intro y hy
        by_contra hpass
        simpa [hx] using h.1 y hy (by simpa using hpass)
      have hfilter : xs.filter test = [] := by simpa using hnone
      simpa [hx, hfilter] using ih h.2

/-- What a function gives for those for which it gives something. -/
theorem map_filter_isSome {α β : Type} (f : α → Option β) (xs : List α) :
    (xs.filter fun x => (f x).isSome).map f = (xs.filterMap f).map some := by
  induction xs with
  | nil => rfl
  | cons x xs ih => cases hx : f x <;> simp [hx, ih]

/-! ## The result -/

/-- What is left of candidates that compete: for every key the first candidate that has it, and no
other one. Those with a rank come first, with ascending ranks; those without follow, in the order in
which their keys are first met. -/
structure MergedFrom (candidates merged : List O) : Prop where
  winners : ∀ k, merged.filter (fun o => key o = k) = (candidates.find? fun o => key o = k).toList
  order : ∃ ranked others, merged = ranked ++ others ∧
    (∃ ranks : List ℕ, ranked.map rank = ranks.map some ∧ ranks.Pairwise (· < ·)) ∧
    (∀ o ∈ others, rank o = none) ∧
    others.Pairwise fun a b => firstPlace candidates (key a) < firstPlace candidates (key b)

/-- Merging keeps, for every key, the first of the own options and then of the shared ones. -/
theorem filter_key_mergeOptions (own shared : List O) (k : Key O) :
    (mergeOptions own shared).filter (fun o => key o = k) =
      ((own ++ shared).find? fun o => key o = k).toList := by
  have hperm := (mergeOptions_perm own shared).filter fun o => key o = k
  rw [filter_key_firstOfEachKey, if_neg List.not_mem_nil] at hperm
  cases hfirst : (own ++ shared).find? fun o => key o = k with
  | none => simpa [hfirst] using hperm
  | some o => simpa [hfirst] using hperm

section Winners

variable {candidates merged : List O}

/-- The options that are left are the first candidates of their keys. -/
theorem MergedFrom.mem_iff (h : MergedFrom candidates merged) (o : O) :
    o ∈ merged ↔ candidates.find? (fun x => key x = key o) = some o := by
  have hmem : o ∈ merged ↔ o ∈ merged.filter fun x => key x = key o := by simp
  rw [hmem, h.winners, Option.mem_toList]

/-- No two options that are left have the same key. -/
theorem MergedFrom.pairwise_key_ne (h : MergedFrom candidates merged) :
    merged.Pairwise fun a b => key a ≠ key b := by
  rw [List.pairwise_iff_forall_sublist]
  intro a b hsublist heq
  have hboth := hsublist.filter fun x => key x = key b
  rw [h.winners] at hboth
  have hlength := hboth.length_le
  have htwo : ([a, b].filter fun x => key x = key b).length = 2 := by simp [heq]
  have hone := Option.length_toList_le (o := candidates.find? fun x => key x = key b)
  omega

end Winners

/-- A category in which options of one rank compete. -/
class DistinctRanks (O : Type) [OptionCategory O] : Prop where
  key_eq {a b : O} : rank a = rank b → rank a ≠ none → key a = key b

instance : DistinctRanks VideoOption where
  key_eq {a b} hsame hranked := by
    cases a <;> cases b <;> simp_all [rank, key, VideoOption.kind, VideoOption.Kind.rank,
      VideoOption.key]

instance : DistinctRanks AudioOption where
  key_eq {a b} hsame hranked := by
    cases a <;> cases b <;> simp_all [rank, key, AudioOption.kind, AudioOption.Kind.rank]

instance : DistinctRanks TextOption where
  key_eq {a b} hsame hranked := by
    cases a <;> cases b <;> simp_all [rank, key, TextOption.kind, TextOption.Kind.rank]

/-- No two merged options have the same key. -/
theorem pairwise_key_ne_mergeOptions (own shared : List O) :
    (mergeOptions own shared).Pairwise fun a b => key a ≠ key b := by
  refine (mergeOptions_perm own shared).symm.pairwise ?_ fun hab => hab.symm
  refine (pairwise_firstOfEachKey [] (own ++ shared)).imp fun hab heq => ?_
  rw [heq] at hab
  exact Nat.lt_irrefl _ hab

/-- What merging makes of the own and the shared options. -/
theorem mergedFrom_mergeOptions [DistinctRanks O] (own shared : List O) :
    MergedFrom (own ++ shared) (mergeOptions own shared) := by
  refine ⟨filter_key_mergeOptions own shared,
    (mergeOptions own shared).filter fun o => (rank o).isSome,
    (mergeOptions own shared).filter fun o => (rank o).isNone, ?_, ?_, by simp, ?_⟩
  · have hfront : (mergeOptions own shared).Pairwise fun a b =>
        (rank b).isSome = true → (rank a).isSome = true := by
      refine (pairwise_mergeOptions own shared).imp fun {a b} hab => ?_
      unfold presentedBefore at hab
      cases ha : rank a <;> cases hb : rank b <;> simp_all
    have hsplit := eq_filter_append_filter hfront
    simpa using hsplit
  · refine ⟨(mergeOptions own shared).filterMap rank, ?_, ?_⟩
    · exact map_filter_isSome rank _
    · rw [List.pairwise_filterMap]
      refine ((pairwise_mergeOptions own shared).and
        (pairwise_key_ne_mergeOptions own shared)).imp fun {a b} hab r hr s hs => ?_
      have hle : r ≤ s := by simpa [presentedBefore, hr, hs] using hab.1
      refine Nat.lt_of_le_of_ne hle fun heq => hab.2 (DistinctRanks.key_eq ?_ ?_)
      · rw [hr, hs, heq]
      · simp [hr]
  · rw [filter_unranked_mergeOptions]
    exact (pairwise_firstOfEachKey [] _).filter _

/-- Whether an option has its place in front of another one that candidates leave. -/
def Precedes (candidates : List O) (a b : O) : Prop :=
  match rank a, rank b with
  | some r, some s => r < s
  | some _, none => True
  | none, some _ => False
  | none, none => firstPlace candidates (key a) < firstPlace candidates (key b)

/-- No option has its place both in front of another one and behind it. -/
theorem Precedes.asymm {candidates : List O} {a b : O} (hab : Precedes candidates a b) :
    ¬ Precedes candidates b a := by
  unfold Precedes at *
  revert hab
  cases rank a <;> cases rank b <;> simp
  all_goals omega

/-- Every option that is left has its place in front of those that follow. -/
theorem MergedFrom.pairwise {candidates merged : List O} (h : MergedFrom candidates merged) :
    merged.Pairwise (Precedes candidates) := by
  obtain ⟨ranked, others, rfl, ⟨ranks, hranks, hascending⟩, hothers, hplaces⟩ := h.order
  have hranked : ∀ a ∈ ranked, ∃ r, rank a = some r := by
    intro a ha
    have hmem : rank a ∈ ranks.map some := hranks ▸ List.mem_map_of_mem ha
    obtain ⟨r, -, hr⟩ := List.mem_map.mp hmem
    exact ⟨r, hr.symm⟩
  rw [List.pairwise_append]
  refine ⟨?_, ?_, ?_⟩
  · have hsome : (ranked.map rank).Pairwise fun x y => ∀ r s, x = some r → y = some s → r < s := by
      rw [hranks, List.pairwise_map]
      exact hascending.imp fun hlt r s hr hs => by simp_all
    rw [List.pairwise_map] at hsome
    refine hsome.imp_of_mem fun {a b} ha hb hlt => ?_
    obtain ⟨r, hr⟩ := hranked a ha
    obtain ⟨s, hs⟩ := hranked b hb
    simpa [Precedes, hr, hs] using hlt r s hr hs
  · refine hplaces.imp_of_mem fun {a b} ha hb hlt => ?_
    simpa [Precedes, hothers a ha, hothers b hb] using hlt
  · intro a ha b hb
    obtain ⟨r, hr⟩ := hranked a ha
    simp [Precedes, hr, hothers b hb]

/-- Candidates leave one list only. -/
theorem MergedFrom.unique {candidates merged merged' : List O} (h : MergedFrom candidates merged)
    (h' : MergedFrom candidates merged') : merged = merged' := by
  have hnodup {merged : List O} (h : MergedFrom candidates merged) : merged.Nodup :=
    h.pairwise_key_ne.imp fun hne heq => hne (congrArg key heq)
  refine List.Perm.eq_of_pairwise (fun a b _ _ hab hba => absurd hba hab.asymm) h.pairwise
    h'.pairwise ((List.perm_ext_iff_of_nodup (hnodup h) (hnodup h')).mpr fun o => ?_)
  rw [h.mem_iff, h'.mem_iff]

/-- Merging is determined by what it leaves. -/
theorem mergeOptions_eq_iff [DistinctRanks O] (own shared merged : List O) :
    mergeOptions own shared = merged ↔ MergedFrom (own ++ shared) merged := by
  constructor
  · intro h
    rw [← h]
    exact mergedFrom_mergeOptions own shared
  · exact (mergedFrom_mergeOptions own shared).unique

/-- In all three categories, merging leaves the first option of every key, ranked ones in front and
the others in the order in which they are found, and nothing else can be left. Fades in and out do
not compete; a named size and a size in pixels do. -/
theorem merging_keeps_first_of_each_key :
    (∀ own shared merged : List VideoOption,
      mergeOptions own shared = merged ↔ MergedFrom (own ++ shared) merged) ∧
    (∀ own shared merged : List AudioOption,
      mergeOptions own shared = merged ↔ MergedFrom (own ++ shared) merged) ∧
    (∀ own shared merged : List TextOption,
      mergeOptions own shared = merged ↔ MergedFrom (own ++ shared) merged) ∧
    (∀ t t' : Transition, key (VideoOption.transition t) = key (.transition t') ↔ t = t') ∧
    ∀ (preset : ResolutionPreset) (s : PixelSize),
      key (VideoOption.resolution preset) = key (.size s) := by
  refine ⟨mergeOptions_eq_iff, mergeOptions_eq_iff, mergeOptions_eq_iff, ?_, fun _ _ => rfl⟩
  intro t t'
  constructor
  · exact fun h => VideoOption.Key.transition.inj h
  · exact fun h => congrArg VideoOption.Key.transition h

/-! ## Merging again -/

/-- Options with keys of their own stay in front of options whose keys they have. -/
theorem firstOfEachKey_append_eq {taken : List (Key O)} {options rest : List O}
    (hdistinct : options.Pairwise fun a b => key a ≠ key b) (hfresh : ∀ o ∈ options, key o ∉ taken)
    (hrest : ∀ o ∈ rest, key o ∈ taken ∨ ∃ x ∈ options, key x = key o) :
    firstOfEachKey taken (options ++ rest) = options := by
  induction options generalizing taken with
  | nil =>
    rw [List.nil_append, List.eq_nil_iff_forall_not_mem]
    intro o ho
    have hmem := (firstOfEachKey_sublist taken rest).subset ho
    simpa [key_not_mem_of_mem_firstOfEachKey ho] using hrest o hmem
  | cons x options ih =>
    rw [List.pairwise_cons] at hdistinct
    rw [List.cons_append, firstOfEachKey, if_neg (hfresh x List.mem_cons_self)]
    congr 1
    refine ih hdistinct.2 (fun o ho => ?_) fun o ho => ?_
    · simp [hfresh o (List.mem_cons_of_mem _ ho), (hdistinct.1 o ho).symm]
    · have hmet := hrest o ho
      simp only [List.mem_cons, exists_eq_or_imp] at hmet ⊢
      grind

/-- Merging shared options into options that they were merged into changes nothing. -/
theorem mergeOptions_mergeOptions (own shared : List O) :
    mergeOptions (mergeOptions own shared) shared = mergeOptions own shared := by
  have hwinners : firstOfEachKey [] (mergeOptions own shared ++ shared) =
      mergeOptions own shared := by
    refine firstOfEachKey_append_eq (pairwise_key_ne_mergeOptions own shared) (by simp) ?_
    intro o ho
    obtain ⟨x, hx⟩ : ∃ x, (own ++ shared).find? (fun x => key x = key o) = some x := by
      rw [← Option.isSome_iff_exists, List.find?_isSome]
      exact ⟨o, List.mem_append_right _ ho, by simp⟩
    have hmem : x ∈ (mergeOptions own shared).filter fun x => key x = key o := by
      simp [filter_key_mergeOptions, hx]
    rw [List.mem_filter, decide_eq_true_eq] at hmem
    exact Or.inr ⟨x, hmem⟩
  rw [mergeOptions, hwinners]
  exact List.mergeSort_of_pairwise (pairwise_mergeOptions own shared)

/-! ## Changing options -/

/-- A change that keeps keys changes the options that are kept. -/
theorem firstOfEachKey_map {f : O → O} (hkey : ∀ o, key (f o) = key o) (taken : List (Key O))
    (options : List O) :
    firstOfEachKey taken (options.map f) = (firstOfEachKey taken options).map f := by
  induction options generalizing taken with
  | nil => rfl
  | cons o rest ih =>
    simp only [List.map_cons, firstOfEachKey, hkey, ih]
    split <;> rfl

/-- A change that keeps keys and ranks can be made before or after options are merged. -/
theorem mergeOptions_map {f : O → O} (hkey : ∀ o, key (f o) = key o)
    (hrank : ∀ o, rank (f o) = rank o) (own shared : List O) :
    mergeOptions (own.map f) (shared.map f) = (mergeOptions own shared).map f := by
  rw [mergeOptions, mergeOptions, ← List.map_append, firstOfEachKey_map hkey]
  refine (List.map_mergeSort fun a _ b _ => ?_).symm
  simp only [presentedBefore, hrank]

end Montage
