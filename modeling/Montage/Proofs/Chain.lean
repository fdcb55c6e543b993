import Mathlib.Data.List.Chain
import Mathlib.Data.List.Nodup
import Montage.Schedule

/-!
# Chains of references

Entries refer to entries, which refer to others in turn. A chain that is followed from an entry
ends at an entry that refers to no other, breaks at a name that names none, or goes on for ever. A
search along a chain reports a name, or the entries up to the first one that it meets again. Such
reports tell how the chain goes on: a chain that comes back to an entry never ends, and for each
entry there is at most one report.
-/

namespace Montage

/-- The names of the entries at some indices. -/
def Project.entryNames (p : Project) (indices : List ℕ) : List String :=
  indices.filterMap fun i => p.timeline[i]?.map Entry.name

/-- The names of some entries and one more. -/
theorem Project.entryNames_concat {p : Project} {i : ℕ} {entry : Entry}
    (hentry : p.timeline[i]? = some entry) (indices : List ℕ) :
    p.entryNames (indices ++ [i]) = p.entryNames indices ++ [entry.name] := by
  simp [entryNames, hentry]

/-- An index is that of the first entry of a name. -/
def Project.FirstNamed (p : Project) (name : String) (i : ℕ) : Prop :=
  p.timeline[i]?.map Entry.name = some name ∧
    ∀ k < i, p.timeline[k]?.map Entry.name ≠ some name

/-- Looking for a name finds the index of the first entry of the name. -/
theorem Project.entryIndex?_eq_some_iff {p : Project} {name : String} {i : ℕ} :
    p.entryIndex? name = some i ↔ p.FirstNamed name i := by
  rw [entryIndex?, List.findIdx?_eq_some_iff_getElem]
  constructor
  · rintro ⟨hi, hname, hbefore⟩
    refine ⟨by simpa [hi] using hname, fun k hk => ?_⟩
    have hk' : k < p.timeline.length := hk.trans hi
    simpa [hk'] using hbefore k hk
  · rintro ⟨hname, hbefore⟩
    obtain ⟨entry, hentry, hentryName⟩ := Option.map_eq_some_iff.mp hname
    obtain ⟨hi, rfl⟩ := List.getElem?_eq_some_iff.mp hentry
    refine ⟨hi, by simpa using hentryName, fun k hk => ?_⟩
    have hk' : k < p.timeline.length := hk.trans hi
    simpa [hk'] using hbefore k hk

/-- Looking for a name finds the first entry of the name. -/
theorem Project.entry?_eq_some_iff {p : Project} {name : String} {entry : Entry} :
    p.entry? name = some entry ↔ ∃ i, p.FirstNamed name i ∧ p.timeline[i]? = some entry := by
  unfold entry?
  rw [List.find?_eq_bind_findIdx?_getElem?, Option.bind_eq_some_iff]
  simp only [← entryIndex?_eq_some_iff, entryIndex?]

namespace Chain

/-- The chain from an index ends. -/
inductive Ends (link : ℕ → Link) : ℕ → Prop
  | stop {i : ℕ} (h : link i = .stop) : Ends link i
  | next {i j : ℕ} (h : link i = .next j) (rest : Ends link j) : Ends link i

/-- The chain from an index comes to a name that names nothing. -/
inductive Breaks (link : ℕ → Link) (name : String) : ℕ → Prop
  | missing {i : ℕ} (h : link i = .missing name) : Breaks link name i
  | next {i j : ℕ} (h : link i = .next j) (rest : Breaks link name j) : Breaks link name i

/-- The chain from an index goes on for ever. -/
def Endless (link : ℕ → Link) (i : ℕ) : Prop :=
  ∃ visit : ℕ → ℕ, visit 0 = i ∧ ∀ k, link (visit k) = .next (visit (k + 1))

/-- The chain from an index up to and including the first index that it has passed before. -/
structure Lasso (link : ℕ → Link) (i : ℕ) (passed : List ℕ) (again : ℕ) : Prop where
  head : passed.head? = some i
  linked : (passed ++ [again]).IsChain fun a b => link a = .next b
  nodup : passed.Nodup
  again_mem : again ∈ passed

/-- The chain from one index to another, by way of distinct indices. -/
structure Passage (link : ℕ → Link) (first : ℕ) (passed : List ℕ) (i : ℕ) : Prop where
  head : (passed ++ [i]).head? = some first
  linked : (passed ++ [i]).IsChain fun a b => link a = .next b
  nodup : passed.Nodup

variable {link : ℕ → Link} {i j : ℕ} {name : String}

/-! ## A chain has one fate -/

/-- A chain that breaks, breaks from each of its indices on. -/
theorem Breaks.of_next (h : Breaks link name i) (hlink : link i = .next j) :
    Breaks link name j := by
  cases h with
  | missing hmissing => simp [hmissing] at hlink
  | next hnext rest =>
    rw [hnext, Link.next.injEq] at hlink
    exact hlink ▸ rest

/-- An endless chain has a next index, from which it is endless again. -/
theorem Endless.exists_next (h : Endless link i) : ∃ j, link i = .next j ∧ Endless link j := by
  obtain ⟨visit, rfl, hvisit⟩ := h
  exact ⟨visit 1, hvisit 0, fun k => visit (k + 1), rfl, fun k => hvisit (k + 1)⟩

/-- A chain that ends does not break. -/
theorem Ends.not_breaks (h : Ends link i) (name : String) : ¬ Breaks link name i := by
  induction h with
  | stop hstop =>
    intro hbreaks
    cases hbreaks with
    | missing hmissing => simp [hstop] at hmissing
    | next hnext rest => simp [hstop] at hnext
  | next hnext rest ih => exact fun hbreaks => ih (hbreaks.of_next hnext)

/-- A chain that ends is not endless. -/
theorem Ends.not_endless (h : Ends link i) : ¬ Endless link i := by
  induction h with
  | stop hstop =>
    intro hendless
    obtain ⟨j, hlink, -⟩ := hendless.exists_next
    simp [hstop] at hlink
  | next hnext rest ih =>
    intro hendless
    obtain ⟨j, hlink, hj⟩ := hendless.exists_next
    rw [hnext, Link.next.injEq] at hlink
    exact ih (hlink ▸ hj)

/-- A chain that breaks is not endless. -/
theorem Breaks.not_endless (h : Breaks link name i) : ¬ Endless link i := by
  induction h with
  | missing hmissing =>
    intro hendless
    obtain ⟨j, hlink, -⟩ := hendless.exists_next
    simp [hmissing] at hlink
  | next hnext rest ih =>
    intro hendless
    obtain ⟨j, hlink, hj⟩ := hendless.exists_next
    rw [hnext, Link.next.injEq] at hlink
    exact ih (hlink ▸ hj)

/-- A chain breaks at one name only. -/
theorem Breaks.name_eq (h : Breaks link name i) {other : String} (h' : Breaks link other i) :
    name = other := by
  induction h with
  | missing hmissing =>
    cases h' with
    | missing hother => exact Link.missing.inj (hmissing.symm.trans hother)
    | next hnext rest => simp [hmissing] at hnext
  | next hnext rest ih => exact ih (h'.of_next hnext)

/-- A chain breaks only at an index whose reference is missing. -/
theorem Breaks.exists_missing (h : Breaks link name i) : ∃ k, link k = .missing name := by
  induction h with
  | missing hmissing => exact ⟨_, hmissing⟩
  | next hnext rest ih => exact ih

/-- An index that refers to itself is on no chain that ends. -/
theorem Ends.link_ne_self (h : Ends link i) : link i ≠ .next i := by
  intro hself
  exact h.not_endless ⟨fun _ => i, rfl, fun _ => hself⟩

/-! ## Chains that come back -/

/-- A passage begins without going anywhere. -/
theorem passage_nil (link : ℕ → Link) (i : ℕ) : Passage link i [] i :=
  ⟨rfl, .singleton i, .nil⟩

/-- A passage that has come to a new index goes on from there. -/
theorem Passage.next {first : ℕ} {passed : List ℕ} (h : Passage link first passed i)
    (hfresh : i ∉ passed) (hlink : link i = .next j) : Passage link first (passed ++ [i]) j := by
  refine ⟨?_, ?_, ?_⟩
  · rw [List.head?_append, h.head, Option.some_or]
  · rw [List.append_assoc, List.singleton_append, List.isChain_append_cons_cons]
    exact ⟨h.linked, hlink, .singleton j⟩
  · rw [← List.concat_eq_append]
    exact h.nodup.concat hfresh

/-- A passage that has come to an index passed before has closed a circle. -/
theorem Passage.lasso {first : ℕ} {passed : List ℕ} (h : Passage link first passed i)
    (hagain : i ∈ passed) : Lasso link first passed i := by
  refine ⟨?_, h.linked, h.nodup, hagain⟩
  rw [← h.head, List.head?_append_of_ne_nil _ (List.ne_nil_of_mem hagain)]

/-- A chain never leaves indices that all refer to each other. -/
theorem endless_of_closed (indices : List ℕ)
    (hclosed : ∀ a ∈ indices, ∃ b ∈ indices, link a = .next b) (hi : i ∈ indices) :
    Endless link i := by
  choose! follower hmem hlink using hclosed
  have hvisited : ∀ k, follower^[k] i ∈ indices := by
    intro k
    induction k with
    | zero => exact hi
    | succ k ih =>
      rw [Function.iterate_succ_apply']
      exact hmem _ ih
  refine ⟨fun k => follower^[k] i, rfl, fun k => ?_⟩
  simp only [Function.iterate_succ_apply']
  exact hlink _ (hvisited k)

/-- A chain that comes back to an index never ends. -/
theorem Lasso.endless {passed : List ℕ} {again : ℕ} (h : Lasso link i passed again) :
    Endless link i := by
  refine endless_of_closed passed ?_ (List.mem_of_mem_head? h.head)
  intro a ha
  obtain ⟨k, hk, rfl⟩ := List.mem_iff_getElem.mp ha
  have hk' : k + 1 < (passed ++ [again]).length := by simpa using hk
  have hlink := List.isChain_iff_getElem.mp h.linked k hk'
  rw [List.getElem_append_left hk] at hlink
  refine ⟨_, ?_, hlink⟩
  rcases List.mem_append.mp (List.getElem_mem hk') with hmem | hmem
  · exact hmem
  · rw [List.mem_singleton.mp hmem]
    exact h.again_mem

/-- Of two chains from one index, the shorter one is the beginning of the longer one. -/
theorem prefix_of_isChain {as bs : List ℕ} (has : as.IsChain fun a b => link a = .next b)
    (hbs : bs.IsChain fun a b => link a = .next b) (hhead : as.head? = bs.head?)
    (hlength : as.length ≤ bs.length) : as <+: bs := by
  induction as generalizing bs with
  | nil => exact List.nil_prefix
  | cons a as ih =>
    cases bs with
    | nil => simp at hhead
    | cons b bs =>
      obtain rfl := Option.some.inj hhead
      refine List.cons_prefix_cons.mpr ⟨rfl, ?_⟩
      cases as with
      | nil => exact List.nil_prefix
      | cons a' as =>
        cases bs with
        | nil => simp at hlength
        | cons b' bs =>
          rw [List.isChain_cons_cons] at has hbs
          refine ih has.2 hbs.2 ?_ (by simpa using hlength)
          exact congrArg some (Link.next.inj (has.1.symm.trans hbs.1))

/-- The chain from an index meets only one index again first. -/
theorem Lasso.path_eq {as bs : List ℕ} {a b : ℕ} (ha : Lasso link i as a)
    (hb : Lasso link i bs b) : as ++ [a] = bs ++ [b] := by
  wlog hlength : as.length ≤ bs.length generalizing as bs a b with hsymm
  · exact (hsymm hb ha (by omega)).symm
  have hhead : (as ++ [a]).head? = (bs ++ [b]).head? := by
    rw [List.head?_append, List.head?_append, ha.head, hb.head]
    rfl
  have hprefix := prefix_of_isChain ha.linked hb.linked hhead (by simpa using hlength)
  rcases hlength.eq_or_lt with heq | hlt
  · exact hprefix.eq_of_length (by simp [heq])
  · -- The shorter chain would meet its last index twice within indices that are all distinct.
    have hinner : as ++ [a] <+: bs :=
      List.prefix_of_prefix_length_le hprefix (List.prefix_append bs [b])
        (by rw [List.length_append, List.length_singleton]; exact hlt)
    have hnodup := hb.nodup.sublist hinner.sublist
    exact absurd ha.again_mem (fun hmem => (List.nodup_append.mp hnodup).2.2 a hmem a (by simp) rfl)

/-! ## Searches -/

/-- What is reported by a search along a chain that began at one index and has come to another: the
name at which the chain breaks, or the names of the entries up to the first one met again. -/
inductive Report (p : Project) (link : ℕ → Link) (first i : ℕ) : Error → Prop
  | missing {name : String} (h : Breaks link name i) :
    Report p link first i (.missingReference .placement name)
  | circle {passed : List ℕ} {again : ℕ} (h : Lasso link first passed again) :
    Report p link first i (.cyclicRelation (p.entryNames (passed ++ [again])))

/-- A search along a chain has a result of the wanted kind, or reports why there is none. -/
def Outcome (p : Project) (link : ℕ → Link) (first i : ℕ) {α : Type} (wanted : α → Prop) :
    Except Error α → Prop
  | .ok a => wanted a
  | .error e => Report p link first i e

variable {p : Project} {first : ℕ} {e : Error}

/-- What is reported from the next index is reported from an index, too. -/
theorem Report.of_next (hlink : link i = .next j) (h : Report p link first j e) :
    Report p link first i e := by
  cases h with
  | missing hbreaks => exact .missing (.next hlink hbreaks)
  | circle hlasso => exact .circle hlasso

/-- What is reported of the chain from an index, said in full. -/
theorem report_iff : Report p link i i e ↔
    (∃ name, Breaks link name i ∧ e = .missingReference .placement name) ∨
      Endless link i ∧ ∃ passed again, Lasso link i passed again ∧
        e = .cyclicRelation (p.entryNames (passed ++ [again])) := by
  constructor
  · rintro (hbreaks | hlasso)
    · exact Or.inl ⟨_, hbreaks, rfl⟩
    · exact Or.inr ⟨hlasso.endless, _, _, hlasso, rfl⟩
  · rintro (⟨name, hbreaks, rfl⟩ | ⟨-, passed, again, hlasso, rfl⟩)
    · exact .missing hbreaks
    · exact .circle hlasso

/-- A missing name is reported of the chains that come to it. -/
theorem report_missing_iff {name : String} :
    Report p link i i (.missingReference .placement name) ↔ Breaks link name i := by
  constructor
  · rintro (hbreaks | -)
    exact hbreaks
  · exact .missing

/-- A circle is reported with the names on the way into it and around. -/
theorem report_circle_iff {path : List String} :
    Report p link i i (.cyclicRelation path) ↔
      ∃ passed again, Lasso link i passed again ∧ path = p.entryNames (passed ++ [again]) := by
  constructor
  · rintro (- | hlasso)
    exact ⟨_, _, hlasso, rfl⟩
  · rintro ⟨passed, again, hlasso, rfl⟩
    exact .circle hlasso

/-- Reports are about chains that break or are endless. -/
theorem Report.breaks_or_endless (h : Report p link i i e) :
    (∃ name, Breaks link name i) ∨ Endless link i := by
  cases h with
  | missing hbreaks => exact Or.inl ⟨_, hbreaks⟩
  | circle hlasso => exact Or.inr hlasso.endless

/-- Nothing is reported of a chain that ends. -/
theorem Report.not_ends (h : Report p link i i e) : ¬ Ends link i := by
  intro hends
  rcases h.breaks_or_endless with ⟨name, hbreaks⟩ | hendless
  · exact hends.not_breaks name hbreaks
  · exact hends.not_endless hendless

/-- A chain has one report at most. -/
theorem Report.unique (h : Report p link i i e) {e' : Error} (h' : Report p link i i e') :
    e = e' := by
  cases h with
  | missing hbreaks =>
    cases h' with
    | missing hbreaks' => rw [hbreaks.name_eq hbreaks']
    | circle hlasso' => exact absurd hlasso'.endless hbreaks.not_endless
  | circle hlasso =>
    cases h' with
    | missing hbreaks' => exact absurd hlasso.endless hbreaks'.not_endless
    | circle hlasso' => rw [hlasso.path_eq hlasso']

section Outcomes

variable {α β : Type} {wanted : α → Prop} {r : Except Error α}

/-- A search that goes on at the next index turns out as it does there. -/
theorem Outcome.of_next (hlink : link i = .next j) (h : Outcome p link first j wanted r)
    {wanted' : α → Prop} (hwanted : ∀ a, wanted a → wanted' a) :
    Outcome p link first i wanted' r := by
  cases r with
  | ok a => exact hwanted a h
  | error e => exact Report.of_next hlink h

/-- A search that goes on at the next index, and does something with what is found there, turns out
as it does there. -/
theorem Outcome.bind (hlink : link i = .next j) (h : Outcome p link first j wanted r)
    {f : α → Except Error β} {wanted' : β → Prop}
    (hf : ∀ a, wanted a → Outcome p link first i wanted' (f a)) :
    Outcome p link first i wanted' (r >>= f) := by
  cases r with
  | ok a => exact hf a h
  | error e => exact Report.of_next hlink h

/-- A search that has a result only where the chain ends fails exactly with what is reported of the
chain. -/
theorem Outcome.error_iff (h : Outcome p link i i wanted r) (hwanted : ∀ a, wanted a → Ends link i)
    (e : Error) : r = .error e ↔ Report p link i i e := by
  cases r with
  | ok a => exact iff_of_false (by simp) fun hreport => hreport.not_ends (hwanted a h)
  | error e' =>
    constructor
    · rintro ⟨⟩
      exact h
    · intro hreport
      exact congrArg _ (Report.unique h hreport)

end Outcomes

end Chain

end Montage
