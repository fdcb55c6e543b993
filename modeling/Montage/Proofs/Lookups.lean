import Mathlib
import Montage.Media.Lookups
import Montage.Proofs.Runs

/-!
# Overlapping lookups tell what was measured

However lookups overlap, whatever is kept for a path, about to be kept or answered was measured for
that path before: only measuring brings lengths in, and every other step hands them on. A failure is
an answer and no length, so nothing is kept for it. Keeping a length puts it in the place of another
one of the same path, so from then on until the cache is emptied something is found for the path,
and a lookup that finds something measures nothing.

A lookup measures in a monad of the caller's choice. `SatisfiesM`, which says what all results of an
action have in common, comes only with the whole library.
-/

namespace Montage

variable {T : Type}

/-! ## The cache -/

namespace DurationCache

/-- Taking away the entries of one key leaves those of the others. -/
theorem lookup_filter_ne {key other : Path.Key} (h : other ≠ key) (entries : List (Path.Key × T)) :
    (entries.filter fun e => e.1 ≠ key).lookup other = entries.lookup other := by
  induction entries with
  | nil => rfl
  | cons e entries ih =>
    by_cases hkey : e.1 = key
    · have hother : (other == e.1) = false := by simpa [hkey] using h
      rw [List.filter_cons_of_neg (by simpa using hkey), ih, List.lookup_cons, hother]
    · rw [List.filter_cons_of_pos (by simpa using hkey), List.lookup_cons, List.lookup_cons, ih]

/-- A length that is kept is found for all paths of its key, and only for them. -/
theorem find?_store (c : DurationCache T) (path : String) (duration : T) (other : String) :
    (c.store path duration).find? other =
      if Path.key other = Path.key path then some duration else c.find? other := by
  by_cases hkey : Path.key other = Path.key path
  · simp [find?, store, hkey]
  · have hother : (Path.key other == Path.key path) = false := by simpa using hkey
    rw [if_neg hkey, find?, store, List.lookup_cons, hother]
    exact lookup_filter_ne hkey c.entries

/-- What is found depends only on the key of a path. -/
theorem find?_congr (c : DurationCache T) {path other : String}
    (h : Path.key path = Path.key other) : c.find? path = c.find? other := by
  rw [find?, find?, h]

/-- The cache after the file of a path was measured. -/
def learn (c : DurationCache T) (path : String) : Except Error T → DurationCache T
  | .ok duration => c.store path duration
  | .error _ => c

section Running

variable {m : Type → Type} [Monad m] [LawfulMonad m] (measure : String → m (Except Error T))
  {c : DurationCache T} {path : String}

/-- A lookup answers with what it finds and leaves the cache as it is. -/
theorem run_lookup_of_some {duration : T} (h : c.find? path = some duration) :
    (lookup measure path).run c = pure (.ok duration, c) := by
  unfold lookup
  simp only [StateT.run_bind, StateT.run_get, pure_bind, h, StateT.run_pure]

/-- A lookup that finds nothing has the file measured, and keeps the length. -/
theorem run_lookup_of_none (h : c.find? path = none) :
    (lookup measure path).run c = do
      let answer ← measure path
      return (answer, c.learn path answer) := by
  unfold lookup
  simp only [StateT.run_bind, StateT.run_get, pure_bind, h, StateT.run_monadLift, bind_assoc]
  congr 1
  funext answer
  cases answer with
  | ok duration => simp [learn]
  | error e => simp [learn]

end Running

end DurationCache

namespace Lookup

/-! ## Steps -/

/-- What an event leads to, case by case. -/
inductive Step (s : Shared T) : Event T → Shared T → Prop where
  | hit (path : String) (duration : T) (h : s.cache.find? path = some duration) :
      Step s (.read path) { s with lookups := s.lookups ++ [.answered path (.ok duration)] }
  | miss (path : String) (h : s.cache.find? path = none) :
      Step s (.read path) { s with lookups := s.lookups ++ [.measuring path] }
  | success (i : ℕ) (path : String) (duration : T) (h : s.lookups[i]? = some (.measuring path)) :
      Step s (.measured i path (.ok duration))
        { s with lookups := s.lookups.set i (.keeping path duration) }
  | failure (i : ℕ) (path : String) (e : Error) (h : s.lookups[i]? = some (.measuring path)) :
      Step s (.measured i path (.error e))
        { s with lookups := s.lookups.set i (.answered path (.error e)) }
  | keep (i : ℕ) (path : String) (duration : T)
      (h : s.lookups[i]? = some (.keeping path duration)) : Step s (.keep i path)
        ⟨s.cache.store path duration, s.lookups.set i (.answered path (.ok duration))⟩
  | peek (path : String) : Step s (.peek path) s
  | clear : Step s .clear { s with cache := .empty }

variable {s t : Shared T} {e : Event T} {events : List (Event T)}

/-- Every event that is possible is one of these cases. -/
theorem step_of_step? (h : s.step? e = some t) : Step s e t := by
  cases e with
  | read path =>
    obtain rfl := Option.some.inj h
    unfold Lookup.read
    split
    · rename_i duration hfind
      exact .hit path duration hfind
    · rename_i hfind
      exact .miss path hfind
  | measured i path answer =>
    simp only [Shared.step?] at h
    split at h
    · rename_i asked hlookup
      split at h
      · rename_i hasked
        subst hasked
        obtain rfl := Option.some.inj h
        cases answer with
        | ok duration => exact .success i asked duration hlookup
        | error e => exact .failure i asked e hlookup
      · cases h
    · cases h
  | keep i path =>
    simp only [Shared.step?] at h
    split at h
    · rename_i asked duration hlookup
      split at h
      · rename_i hasked
        subst hasked
        obtain rfl := Option.some.inj h
        exact .keep i asked duration hlookup
      · cases h
    · cases h
  | peek path =>
    obtain rfl := Option.some.inj h
    exact .peek path
  | clear =>
    obtain rfl := Option.some.inj h
    exact .clear

/-- A lookup that nothing interrupts is a history: whatever it answers and however it leaves the
cache, the same comes of its steps one after the other. -/
theorem lookup_is_history {m : Type → Type} [Monad m] [LawfulMonad m]
    (measure : String → m (Except Error T)) (path : String) (s : Shared T) :
    SatisfiesM (fun r : Except Error T × DurationCache T => ∃ events,
      s.run? events = some ⟨r.2, s.lookups ++ [.answered path r.1]⟩)
      ((DurationCache.lookup measure path).run s.cache) := by
  cases hfind : s.cache.find? path with
  | some duration =>
    rw [DurationCache.run_lookup_of_some measure hfind]
    exact SatisfiesM.pure ⟨[.read path], by simp [Shared.run?, Shared.step?, Lookup.read, hfind]⟩
  | none =>
    rw [DurationCache.run_lookup_of_none measure hfind]
    refine SatisfiesM.trivial.bind fun answer _ => SatisfiesM.pure ?_
    cases answer with
    | ok duration =>
      refine ⟨[.read path, .measured s.lookups.length path (.ok duration),
        .keep s.lookups.length path], ?_⟩
      simp [Shared.run?, Shared.step?, Lookup.read, hfind, hear, DurationCache.learn]
    | error e =>
      refine ⟨[.read path, .measured s.lookups.length path (.error e)], ?_⟩
      simp [Shared.run?, Shared.step?, Lookup.read, hfind, hear, DurationCache.learn]

/-! ## Where lengths come from -/

/-- A length was measured for a path, whatever text the path was given as. -/
def Measured (events : List (Event T)) (path : String) (duration : T) : Prop :=
  ∃ i other, Path.key other = Path.key path ∧ Event.measured i other (.ok duration) ∈ events

/-- What was measured stays measured. -/
theorem Measured.concat {path : String} {duration : T} (h : Measured events path duration)
    (e : Event T) : Measured (events ++ [e]) path duration := by
  obtain ⟨i, other, hkey, hmem⟩ := h
  exact ⟨i, other, hkey, List.mem_append_left _ hmem⟩

/-- The length that a lookup has found or measured, if it has one, was measured for its path. -/
def Traced (events : List (Event T)) : Lookup T → Prop
  | keeping path duration | answered path (.ok duration) => Measured events path duration
  | measuring _ | answered _ (.error _) => True

/-- A lookup whose length was measured stays one. -/
theorem Traced.concat {l : Lookup T} (h : l.Traced events) (e : Event T) :
    l.Traced (events ++ [e]) := by
  rcases l with path | ⟨path, duration⟩ | ⟨path, _ | duration⟩
  · trivial
  · exact Measured.concat h e
  · trivial
  · exact Measured.concat h e

/-- All lengths, in the cache and in lookups, were measured for their paths. -/
structure Shared.Traced (events : List (Event T)) (s : Shared T) : Prop where
  entries : ∀ path duration, s.cache.find? path = some duration → Measured events path duration
  lookups : ∀ l ∈ s.lookups, l.Traced events

/-- Replacing a member keeps what holds of all members, if it holds of the new one. -/
theorem forall_mem_set {P : Lookup T → Prop} {ls : List (Lookup T)} (h : ∀ l ∈ ls, P l) (i : ℕ)
    {new : Lookup T} (hnew : P new) : ∀ l ∈ ls.set i new, P l := by
  intro l hl
  rcases List.mem_or_eq_of_mem_set hl with hl | rfl
  · exact h l hl
  · exact hnew

/-- Every step hands on lengths that were measured. -/
theorem Step.traced (h : Step s e t) (hs : s.Traced events) : t.Traced (events ++ [e]) := by
  have hentries := fun path duration hfind => (hs.entries path duration hfind).concat e
  have hlookups := fun l hl => (hs.lookups l hl).concat e
  cases h with
  | hit path duration hfind =>
    refine ⟨hentries, List.forall_mem_append.mpr ⟨hlookups, List.forall_mem_singleton.mpr ?_⟩⟩
    exact hentries path duration hfind
  | miss path hfind =>
    exact ⟨hentries, List.forall_mem_append.mpr ⟨hlookups, List.forall_mem_singleton.mpr trivial⟩⟩
  | success i path duration hlookup =>
    refine ⟨hentries, forall_mem_set hlookups i ?_⟩
    exact ⟨i, path, rfl, List.mem_append_right _ List.mem_cons_self⟩
  | failure i path e hlookup => exact ⟨hentries, forall_mem_set hlookups i trivial⟩
  | keep i path duration hlookup =>
    have hkept : Measured (events ++ [.keep i path]) path duration :=
      hlookups _ (List.mem_of_getElem? hlookup)
    refine ⟨fun other found hfind => ?_, forall_mem_set hlookups i hkept⟩
    rw [DurationCache.find?_store] at hfind
    split at hfind
    · rename_i hkey
      obtain rfl := Option.some.inj hfind
      obtain ⟨j, asked, hasked, hmem⟩ := hkept
      exact ⟨j, asked, hasked.trans hkey.symm, hmem⟩
    · exact hentries other found hfind
  | peek path => exact ⟨hentries, hlookups⟩
  | clear => exact ⟨fun path duration hfind => (nomatch hfind), hlookups⟩

/-- After every history all lengths are ones that were measured. -/
theorem traced_of_run (h : Shared.start.run? events = some s) : s.Traced events := by
  refine Runs.history_keeps Shared.Traced ?_ ?_ h
  · exact ⟨fun path duration hfind => (nomatch hfind), fun l hl => (nomatch hl)⟩
  · intro events u e v hu hstep
    exact (step_of_step? hstep).traced hu

/-! ## Answers stay -/

/-- Whether an event is a step of a lookup that was started before. -/
def Event.concerns (i : ℕ) : Event T → Prop
  | measured j _ _ | keep j _ => j = i
  | _ => False

/-- An answered lookup takes no other step, and keeps its answer. -/
theorem Step.answered (h : Step s e t) {i : ℕ} {path : String} {answer : Except Error T}
    (hs : s.lookups[i]? = some (.answered path answer)) :
    ¬ e.concerns i ∧ t.lookups[i]? = some (.answered path answer) := by
  have hi : i < s.lookups.length := (List.getElem?_eq_some_iff.mp hs).1
  cases h with
  | hit | miss => exact ⟨id, by rw [List.getElem?_append_left hi]; exact hs⟩
  | success j | failure j | keep j =>
    rename_i hlookup
    have hne : j ≠ i := by
      rintro rfl
      rw [hs] at hlookup
      cases hlookup
    exact ⟨hne, by rw [List.getElem?_set_ne hne]; exact hs⟩
  | peek | clear => exact ⟨id, hs⟩

/-- An answered lookup takes no other step in a whole history, and keeps its answer. -/
theorem answered_of_run {i : ℕ} {path : String} {answer : Except Error T}
    (hs : s.lookups[i]? = some (.answered path answer)) (h : s.run? events = some t) :
    (∀ e ∈ events, ¬ e.concerns i) ∧ t.lookups[i]? = some (.answered path answer) := by
  refine Runs.history_keeps (fun events u => (∀ e ∈ events, ¬ e.concerns i) ∧
    u.lookups[i]? = some (.answered path answer)) ⟨fun e he => (nomatch he), hs⟩ ?_ h
  intro events u e v hu hstep
  obtain ⟨hconcerns, hv⟩ := (step_of_step? hstep).answered hu.2
  refine ⟨fun other hother => ?_, hv⟩
  rcases List.mem_append.mp hother with hother | hother
  · exact hu.1 other hother
  · rwa [List.mem_singleton.mp hother]

/-- Whether an event starts a lookup. -/
def Event.isRead : Event T → Bool
  | read _ => true
  | _ => false

/-- The number of lookups that start in a history. -/
def reads (events : List (Event T)) : ℕ :=
  events.countP Event.isRead

/-- Lookups are numbered in the order of their starts: there are as many as were started, and no
step is one of a lookup that was not. -/
structure Numbered (events : List (Event T)) (s : Shared T) : Prop where
  length_lookups : s.lookups.length = reads events
  not_concerns : ∀ i, s.lookups.length ≤ i → ∀ e ∈ events, ¬ e.concerns i

/-- A reading starts a lookup, and only lookups that were started take other steps. -/
theorem Step.length_lookups (h : Step s e t) :
    t.lookups.length = s.lookups.length + e.isRead.toNat ∧
      ∀ i, s.lookups.length ≤ i → ¬ e.concerns i := by
  cases h with
  | hit | miss => exact ⟨by simp [Event.isRead], fun i hi => id⟩
  | success j | failure j | keep j =>
    rename_i hlookup
    have hj : j < s.lookups.length := (List.getElem?_eq_some_iff.mp hlookup).1
    exact ⟨by simp [Event.isRead], fun i hi => by simp only [Event.concerns]; omega⟩
  | peek | clear => exact ⟨rfl, fun i hi => id⟩

/-- After every history lookups are numbered. -/
theorem numbered_of_run (h : Shared.start.run? events = some s) : Numbered events s := by
  refine Runs.history_keeps Numbered ⟨rfl, fun i hi e he => (nomatch he)⟩ ?_ h
  intro events u e v hu hstep
  obtain ⟨hlength, hconcerns⟩ := (step_of_step? hstep).length_lookups
  refine ⟨?_, fun i hi other hother => ?_⟩
  · rw [hlength, hu.length_lookups, reads, reads, List.countP_append, List.countP_singleton]
    cases e.isRead <;> rfl
  · have hi' : u.lookups.length ≤ i := by omega
    rcases List.mem_append.mp hother with hother | hother
    · exact hu.not_concerns i hi' other hother
    · rw [List.mem_singleton.mp hother]
      exact hconcerns i hi'

/-! ## Lengths stay until the cache is emptied -/

/-- Unless the cache is emptied, something is found for a path for which something was found. -/
theorem Step.exists_find? (h : Step s e t) (hclear : e ≠ .clear) {path : String}
    (hs : ∃ duration, s.cache.find? path = some duration) :
    ∃ duration, t.cache.find? path = some duration := by
  cases h with
  | keep i other duration hlookup =>
    rw [DurationCache.find?_store]
    split
    · exact ⟨duration, rfl⟩
    · exact hs
  | clear => exact absurd rfl hclear
  | _ => exact hs

/-- Until the cache is emptied, something is found for a path for which something was found. -/
theorem exists_find?_of_run {path : String} (hs : ∃ duration, s.cache.find? path = some duration)
    (h : s.run? events = some t) (hclear : .clear ∉ events) :
    ∃ duration, t.cache.find? path = some duration := by
  refine Runs.history_keeps (fun events u => .clear ∉ events →
    ∃ duration, u.cache.find? path = some duration) (fun _ => hs) ?_ h hclear
  intro events u e v hu hstep hnot
  rw [List.mem_append, List.mem_singleton, not_or] at hnot
  exact (step_of_step? hstep).exists_find? (Ne.symm hnot.2) (hu hnot.1)

/-! ## Whole histories -/

/-- What a history of overlapping lookups amounts to. -/
structure Coherent (events : List (Event T)) (s : Shared T) : Prop where
  /-- What is kept for a path was measured for it. -/
  entries : ∀ path duration, s.cache.find? path = some duration → Measured events path duration
  /-- What is answered for a path was measured for it. -/
  answers : ∀ (i : ℕ) path duration, s.lookups[i]? = some (.answered path (.ok duration)) →
    Measured events path duration
  /-- A failure leaves the cache as it was. It is the answer of its lookup, which takes no other
  step. -/
  failures : ∀ (before : List (Event T)) (i : ℕ) path e after,
    events = before ++ .measured i path (.error e) :: after →
    ∃ u v, Shared.start.run? before = some u ∧
      u.step? (.measured i path (.error e)) = some v ∧ v.cache = u.cache ∧
      s.lookups[i]? = some (.answered path (.error e)) ∧ ∀ e ∈ after, ¬ e.concerns i
  /-- Where only one length is ever measured for a path, it is the only answer. Once it is kept and
  until the cache is emptied, lookups that start answer with it and measure nothing. -/
  agreed : ∀ path duration, (∀ other, Measured events path other → other = duration) →
    (∀ (i : ℕ) again answer, Path.key again = Path.key path →
      s.lookups[i]? = some (.answered again (.ok answer)) → answer = duration) ∧
    ∀ before i kept between again after,
      events = before ++ .keep i kept :: between ++ .read again :: after →
      Path.key kept = Path.key path → Path.key again = Path.key path → .clear ∉ between →
        s.lookups[reads (before ++ .keep i kept :: between)]? =
          some (.answered again (.ok duration)) ∧
        ∀ e ∈ events, ¬ e.concerns (reads (before ++ .keep i kept :: between))
  /-- A lookup that runs without interruption continues the history. -/
  continued : ∀ (m : Type → Type) [Monad m] [LawfulMonad m]
    (measure : String → m (Except Error T)) (path : String),
    SatisfiesM (fun r : Except Error T × DurationCache T => ∃ later,
      Shared.start.run? (events ++ later) = some ⟨r.2, s.lookups ++ [.answered path r.1]⟩)
      ((DurationCache.lookup measure path).run s.cache)

/-- A failure is the last step of its lookup and changes nothing else. -/
theorem failure_of_run {before after : List (Event T)} {i : ℕ} {path : String} {e : Error}
    (h : Shared.start.run? (before ++ .measured i path (.error e) :: after) = some s) :
    ∃ u v, Shared.start.run? before = some u ∧
      u.step? (.measured i path (.error e)) = some v ∧ v.cache = u.cache ∧
      s.lookups[i]? = some (.answered path (.error e)) ∧ ∀ e ∈ after, ¬ e.concerns i := by
  obtain ⟨u, v, hbefore, hstep, hafter⟩ := Runs.exists_step h
  refine ⟨u, v, hbefore, hstep, ?_⟩
  cases step_of_step? hstep with
  | failure i path e hlookup =>
    have hi : i < u.lookups.length := (List.getElem?_eq_some_iff.mp hlookup).1
    have hanswered : (u.lookups.set i (.answered path (.error e)))[i]? =
        some (.answered path (.error e)) := List.getElem?_set_self hi
    obtain ⟨hconcerns, hs⟩ := answered_of_run (s := ⟨u.cache, _⟩) hanswered hafter
    exact ⟨rfl, hs, hconcerns⟩

/-- A lookup that starts after a length was kept for its path, and before the cache is emptied, is
answered at once and takes no other step. -/
theorem answered_of_kept {before between after : List (Event T)} {i : ℕ} {kept again : String}
    (h : Shared.start.run? (before ++ .keep i kept :: between ++ .read again :: after) = some s)
    (hkey : Path.key again = Path.key kept) (hclear : .clear ∉ between) :
    ∃ duration, s.lookups[reads (before ++ .keep i kept :: between)]? =
        some (.answered again (.ok duration)) ∧
      ∀ e ∈ before ++ .keep i kept :: between ++ .read again :: after,
        ¬ e.concerns (reads (before ++ .keep i kept :: between)) := by
  obtain ⟨u, v, hearlier, hread, hafter⟩ := Runs.exists_step h
  obtain ⟨w, x, -, hkeep, hbetween⟩ := Runs.exists_step hearlier
  have hx : ∃ duration, x.cache.find? kept = some duration := by
    cases step_of_step? hkeep with
    | keep i kept duration hlookup => exact ⟨duration, by simp [DurationCache.find?_store]⟩
  obtain ⟨duration, hfind⟩ := exists_find?_of_run hx hbetween hclear
  have hnumbered := numbered_of_run hearlier
  have hcount := hnumbered.length_lookups
  obtain rfl : v = { u with lookups := u.lookups ++ [.answered again (.ok duration)] } := by
    rw [← u.cache.find?_congr hkey] at hfind
    simpa [Shared.step?, Lookup.read, hfind] using hread.symm
  have hanswered : (u.lookups ++ [.answered again (.ok duration)])[u.lookups.length]? =
      some (.answered again (.ok duration)) := by simp
  obtain ⟨hconcerns, hs⟩ := answered_of_run (s := ⟨u.cache, _⟩) hanswered hafter
  rw [← hcount]
  refine ⟨duration, hs, List.forall_mem_append.mpr ⟨?_, List.forall_mem_cons.mpr ⟨id, hconcerns⟩⟩⟩
  exact hnumbered.not_concerns _ (Nat.le_refl _)

/-- Overlapping lookups tell what was measured, in whatever order they read, measure and keep, and
whenever the cache is emptied. -/
theorem history_is_coherent {events : List (Event T)} {s : Shared T}
    (h : Shared.start.run? events = some s) : Coherent events s := by
  have hs := traced_of_run h
  have hanswers (i : ℕ) (path : String) (duration : T)
      (hi : s.lookups[i]? = some (.answered path (.ok duration))) :
      Measured events path duration := hs.lookups _ (List.mem_of_getElem? hi)
  exact {
    entries := hs.entries
    answers := hanswers
    failures := by
      rintro before i path e after rfl
      exact failure_of_run h
    agreed := by
      intro path duration hsame
      have honly (i : ℕ) (again : String) (answer : T) (hkey : Path.key again = Path.key path)
          (hi : s.lookups[i]? = some (.answered again (.ok answer))) : answer = duration := by
        obtain ⟨j, other, hother, hmem⟩ := hanswers i again answer hi
        exact hsame answer ⟨j, other, hother.trans hkey, hmem⟩
      refine ⟨honly, ?_⟩
      rintro before i kept between again after rfl hkept hagain hclear
      obtain ⟨answer, hanswer, hconcerns⟩ :=
        answered_of_kept h (hagain.trans hkept.symm) hclear
      obtain rfl := honly _ again answer hagain hanswer
      exact ⟨hanswer, hconcerns⟩
    continued := by
      intro m _ _ measure path
      refine (lookup_is_history measure path s).imp ?_
      rintro r ⟨later, hlater⟩
      exact ⟨later, Runs.append_iff.mpr ⟨s, h, hlater⟩⟩ }

/-- Two lookups of one file overlap, and both have it measured. Its path is given in two ways, and a
file that is missing is looked up in between. After the cache was emptied a length is kept that was
measured before. -/
def overlap : List (Event ℕ) :=
  [.read "clips/intro.mp4", .read "clips//intro.mp4", .measured 0 "clips/intro.mp4" (.ok 8),
    .read "lost.mp4", .keep 0 "clips/intro.mp4", .peek "clips/intro.mp4",
    .measured 1 "clips//intro.mp4" (.ok 8), .measured 2 "lost.mp4" (.error (.system "lost")),
    .clear, .keep 1 "clips//intro.mp4", .read "clips/./intro.mp4"]

/-- The two lookups of the file agree, and the last one finds the length that was kept late. -/
theorem overlap_is_coherent : ∃ s, Shared.start.run? overlap = some s ∧
    s.lookups[3]? = some (.answered "clips/./intro.mp4" (.ok 8)) ∧ Coherent overlap s :=
  ⟨_, rfl, rfl, history_is_coherent rfl⟩

end Lookup

end Montage
