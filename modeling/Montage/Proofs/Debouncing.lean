import Montage.Build.Debounce
import Montage.Proofs.Runs

/-!
# Debouncing loses no edit and builds for none

Whatever the order in which edits come, windows pass and builds end, every edit is in exactly one
place: in a batch that a build was started for, in the batch at hand, or still in the channel, and
these follow each other in the order in which the edits were sent. A build starts only for edits
that were sent, after a window in which no other one came or when no other one can come. Each move
of the loop uses up some of the work that the edits made, so the loop ends once the channel is
closed, with every edit in a batch.
-/

namespace Montage.Debounce

variable {α : Type} {window : ℕ}

/-! ## Histories -/

namespace Event

/-- The edit that an event sends. -/
def edit? : Event α → Option α
  | edit content => some content
  | _ => none

/-- The time that passes in an event. -/
def time : Event α → ℕ
  | elapse time => time
  | _ => 0

/-- Whether a build starts. -/
def isBuild : Event α → Bool
  | build => true
  | _ => false

/-- Whether an event is a move of the loop, the end of a build included, and not of the sender or
of the clock. -/
def isMove : Event α → Bool
  | edit _ | close | elapse _ => false
  | _ => true

end Event

/-- The edits of a history, in the order in which they were sent. -/
def sent (events : List (Event α)) : List α :=
  events.filterMap Event.edit?

/-- The time that passes in a history. -/
def duration : List (Event α) → ℕ
  | [] => 0
  | e :: events => e.time + duration events

/-- The number of builds that start in a history. -/
def started (events : List (Event α)) : ℕ :=
  events.countP Event.isBuild

/-- The number of moves of the loop in a history. -/
def moves (events : List (Event α)) : ℕ :=
  events.countP Event.isMove

/-- Edits add up. -/
@[simp] theorem sent_append (before after : List (Event α)) :
    sent (before ++ after) = sent before ++ sent after :=
  List.filterMap_append

/-- A single event sends at most one edit. -/
@[simp] theorem sent_singleton (e : Event α) : sent [e] = e.edit?.toList := by
  cases h : e.edit? <;> simp [sent, h]

/-- Times add up. -/
@[simp] theorem duration_append (before after : List (Event α)) :
    duration (before ++ after) = duration before + duration after := by
  induction before with
  | nil => exact (Nat.zero_add _).symm
  | cons e before ih => rw [List.cons_append, duration, duration, ih, Nat.add_assoc]

/-- Starts of builds add up. -/
@[simp] theorem started_append (before after : List (Event α)) :
    started (before ++ after) = started before + started after :=
  List.countP_append

/-- A single event starts at most one build. -/
@[simp] theorem started_singleton (e : Event α) : started [e] = e.isBuild.toNat := by
  cases h : e.isBuild <;> simp [started, h]

/-- Moves add up. -/
@[simp] theorem moves_append (before after : List (Event α)) :
    moves (before ++ after) = moves before + moves after :=
  List.countP_append

/-- A single event is at most one move. -/
@[simp] theorem moves_singleton (e : Event α) : moves [e] = e.isMove.toNat := by
  cases h : e.isMove <;> simp [moves, h]

/-! ## Steps -/

/-- What an event leads to, case by case. -/
inductive Step (window : ℕ) : Loop α → Event α → Loop α → Prop where
  | edit (s : Loop α) (content : α) : Step window { s with closed := false } (.edit content)
      { s with waiting := s.waiting ++ [content], closed := false }
  | close (s : Loop α) :
      Step window { s with closed := false } .close { s with closed := true }
  | elapse (s : Loop α) (time : ℕ) :
      Step window s (.elapse time) { s with phase := s.phase.elapse time }
  /-- The first edit of a batch. -/
  | takeFirst (s : Loop α) (edit : α) (waiting : List α) :
      Step window { s with phase := .idle, waiting := edit :: waiting } .take
        { s with phase := .settling [edit] 0, waiting := waiting }
  /-- An edit that ends a wait for quiet and starts another one. -/
  | takeMore (s : Loop α) (edit : α) (waiting batch : List α) (elapsed : ℕ) :
      Step window { s with phase := .settling batch elapsed, waiting := edit :: waiting } .take
        { s with phase := .settling (batch ++ [edit]) 0, waiting := waiting }
  /-- An edit that came while a build ran. -/
  | takeLate (s : Loop α) (edit : α) (waiting batch : List α) :
      Step window { s with phase := .draining batch, waiting := edit :: waiting } .take
        { s with phase := .draining (batch ++ [edit]), waiting := waiting }
  | stopIdle (s : Loop α) :
      Step window { s with phase := .idle, waiting := [], closed := true } .hearClose
        { s with phase := .finished, waiting := [], closed := true }
  | stopDrained (s : Loop α) :
      Step window { s with phase := .draining [], waiting := [], closed := true } .hearClose
        { s with phase := .finished, waiting := [], closed := true }
  | closeSettling (s : Loop α) (batch : List α) (elapsed : ℕ) :
      Step window { s with phase := .settling batch elapsed, waiting := [], closed := true }
        .hearClose { s with phase := .ready batch true, waiting := [], closed := true }
  | closeDraining (s : Loop α) (edit : α) (batch : List α) :
      Step window { s with phase := .draining (edit :: batch), waiting := [], closed := true }
        .hearClose { s with phase := .ready (edit :: batch) true, waiting := [], closed := true }
  | expire (s : Loop α) (batch : List α) (elapsed : ℕ) (h : window ≤ elapsed) :
      Step window { s with phase := .settling batch elapsed, waiting := [], closed := false }
        .expire { s with phase := .ready batch false, waiting := [], closed := false }
  | build (s : Loop α) (batch : List α) (last : Bool) :
      Step window { s with phase := .ready batch last } .build
        { s with phase := .building last, batches := s.batches ++ [batch] }
  | finishLast (s : Loop α) :
      Step window { s with phase := .building true } .finish
        { s with phase := .finished, builds := s.builds + 1 }
  | finish (s : Loop α) :
      Step window { s with phase := .building false } .finish
        { s with phase := .draining [], builds := s.builds + 1 }
  | rest (s : Loop α) :
      Step window { s with phase := .draining [], waiting := [], closed := false } .settle
        { s with phase := .idle, waiting := [], closed := false }
  | resume (s : Loop α) (edit : α) (batch : List α) :
      Step window { s with phase := .draining (edit :: batch), waiting := [], closed := false }
        .settle { s with phase := .settling (edit :: batch) 0, waiting := [], closed := false }

/-- Taking an edit is one of these cases. -/
theorem step_of_take? {s t : Loop α} (h : s.take? = some t) : Step window s .take t := by
  obtain ⟨phase, waiting, closed, batches, builds⟩ := s
  cases waiting with
  | nil => simp [Loop.take?] at h
  | cons edit waiting =>
    cases phase <;> simp only [Loop.take?, Option.some.injEq, reduceCtorEq] at h <;> subst h
    case idle => exact .takeFirst ⟨.idle, [], closed, batches, builds⟩ edit waiting
    case settling batch elapsed =>
      exact .takeMore ⟨.idle, [], closed, batches, builds⟩ edit waiting batch elapsed
    case draining batch =>
      exact .takeLate ⟨.idle, [], closed, batches, builds⟩ edit waiting batch

/-- Finding the channel closed is one of these cases. -/
theorem step_of_hearClose? {s t : Loop α} (h : s.hearClose? = some t) :
    Step window s .hearClose t := by
  obtain ⟨phase, waiting, closed, batches, builds⟩ := s
  cases waiting <;> cases closed <;> simp only [Loop.hearClose?, List.isEmpty_nil,
    List.isEmpty_cons, Bool.and_true, Bool.and_false, Bool.false_eq_true, if_true, if_false,
    reduceCtorEq] at h
  rcases phase with _ | ⟨batch, elapsed⟩ | ⟨batch, last⟩ | last | ⟨_ | ⟨edit, batch⟩⟩ | _ <;>
    simp only [Option.some.injEq, reduceCtorEq] at h <;> subst h
  · exact .stopIdle ⟨.idle, [], true, batches, builds⟩
  · exact .closeSettling ⟨.idle, [], true, batches, builds⟩ batch elapsed
  · exact .stopDrained ⟨.idle, [], true, batches, builds⟩
  · exact .closeDraining ⟨.idle, [], true, batches, builds⟩ edit batch

/-- Finding the channel empty after a build is one of these cases. -/
theorem step_of_settle? {s t : Loop α} (h : s.settle? = some t) : Step window s .settle t := by
  obtain ⟨phase, waiting, closed, batches, builds⟩ := s
  cases waiting <;> cases closed <;> simp only [Loop.settle?, List.isEmpty_nil,
    List.isEmpty_cons, Bool.not_false, Bool.not_true, Bool.and_true, Bool.and_false,
    Bool.false_eq_true, if_true, if_false, reduceCtorEq] at h
  rcases phase with _ | ⟨batch, elapsed⟩ | ⟨batch, last⟩ | last | ⟨_ | ⟨edit, batch⟩⟩ | _ <;>
    simp only [Option.some.injEq, reduceCtorEq] at h <;> subst h
  · exact .rest ⟨.idle, [], false, batches, builds⟩
  · exact .resume ⟨.idle, [], false, batches, builds⟩ edit batch

/-- Every event that is possible is one of these cases. -/
theorem step_of_step? {s t : Loop α} {e : Event α} (h : s.step? window e = some t) :
    Step window s e t := by
  obtain ⟨phase, waiting, closed, batches, builds⟩ := s
  cases e with
  | edit content =>
    cases closed <;> simp only [Loop.step?, Bool.false_eq_true, if_true, if_false,
      Option.some.injEq, reduceCtorEq] at h
    subst h
    exact .edit ⟨phase, waiting, false, batches, builds⟩ content
  | close =>
    cases closed <;> simp only [Loop.step?, Bool.false_eq_true, if_true, if_false,
      Option.some.injEq, reduceCtorEq] at h
    subst h
    exact .close ⟨phase, waiting, false, batches, builds⟩
  | elapse time =>
    obtain rfl := Option.some.inj h
    exact .elapse _ time
  | take => exact step_of_take? h
  | hearClose => exact step_of_hearClose? h
  | expire =>
    cases phase <;> simp only [Loop.step?, reduceCtorEq] at h
    case settling batch elapsed =>
      split at h
      · rename_i hcondition
        simp only [Bool.and_eq_true, List.isEmpty_iff, Bool.not_eq_true', decide_eq_true_eq]
          at hcondition
        obtain ⟨⟨rfl, rfl⟩, hwindow⟩ := hcondition
        obtain rfl := Option.some.inj h
        exact .expire ⟨.idle, [], false, batches, builds⟩ batch elapsed hwindow
      · cases h
  | build =>
    cases phase <;> simp only [Loop.step?, Option.some.injEq, reduceCtorEq] at h
    case ready batch last =>
      subst h
      exact .build ⟨.idle, waiting, closed, batches, builds⟩ batch last
  | finish =>
    cases phase <;> simp only [Loop.step?, Option.some.injEq, reduceCtorEq] at h
    case building last =>
      subst h
      cases last with
      | true => exact .finishLast ⟨.idle, waiting, closed, batches, builds⟩
      | false => exact .finish ⟨.idle, waiting, closed, batches, builds⟩
  | settle => exact step_of_settle? h

variable {s t : Loop α} {e : Event α} {events : List (Event α)}

/-! ## Edits in their order -/

/-- The edits that the loop has at hand. -/
def Phase.batch : Phase α → List α
  | settling batch _ | ready batch _ | draining batch => batch
  | idle | building _ | finished => []

/-- Time does not change the edits at hand. -/
@[simp] theorem Phase.batch_elapse (phase : Phase α) (time : ℕ) :
    (phase.elapse time).batch = phase.batch := by
  cases phase <;> rfl

/-- Every edit is in a batch that was built for, in the batch at hand or in the channel, in the
order in which the edits were sent. -/
def Accounted (events : List (Event α)) (s : Loop α) : Prop :=
  sent events = s.batches.flatten ++ s.phase.batch ++ s.waiting

/-- No step loses an edit or changes the order. -/
theorem Step.accounted (h : Step window s e t) (hs : Accounted events s) :
    Accounted (events ++ [e]) t := by
  unfold Accounted at hs ⊢
  rw [sent_append, hs]
  cases h with
  | elapse time => simp [Event.edit?]
  | _ => simp [Event.edit?, Phase.batch]

/-- A phase that a build follows has edits at hand. -/
def Phase.Filled : Phase α → Prop
  | settling batch _ | ready batch _ => batch ≠ []
  | _ => True

/-- Time does not take edits away. -/
@[simp] theorem Phase.filled_elapse (phase : Phase α) (time : ℕ) :
    (phase.elapse time).Filled ↔ phase.Filled := by
  cases phase <;> rfl

/-- No step makes an empty batch to build for. -/
theorem Step.filled (h : Step window s e t)
    (hs : s.phase.Filled ∧ ∀ batch ∈ s.batches, batch ≠ []) :
    t.phase.Filled ∧ ∀ batch ∈ t.batches, batch ≠ [] := by
  cases h with
  | elapse time => simpa using hs
  | build s batch last =>
    obtain ⟨hbatch, hbatches⟩ := hs
    refine ⟨trivial, fun other hother => ?_⟩
    rcases List.mem_append.mp hother with hother | hother
    · exact hbatches other hother
    · rw [List.mem_singleton.mp hother]
      exact hbatch
  | _ => simp_all [Phase.Filled]

/-! ## Builds and the close -/

/-- How many builds are running. -/
def Phase.running : Phase α → ℕ
  | building _ => 1
  | _ => 0

/-- Time alone ends no build. -/
@[simp] theorem Phase.running_elapse (phase : Phase α) (time : ℕ) :
    (phase.elapse time).running = phase.running := by
  cases phase <;> rfl

/-- Every build has a batch, and has ended unless it is running. -/
structure Counted (events : List (Event α)) (s : Loop α) : Prop where
  started : s.batches.length = started events
  ended : s.batches.length = s.builds + s.phase.running

/-- Every step keeps count. -/
theorem Step.counted (h : Step window s e t) (hs : Counted events s) :
    Counted (events ++ [e]) t := by
  obtain ⟨hstarted, hended⟩ := hs
  cases h with
  | elapse time => exact ⟨by simp [hstarted, Event.isBuild], by simpa using hended⟩
  | _ => exact ⟨by simp [hstarted, Event.isBuild], by simpa [Phase.running] using hended⟩

/-- Whether the loop knows that there will be no other edit. -/
def Phase.isLast : Phase α → Bool
  | ready _ last | building last => last
  | finished => true
  | _ => false

/-- Time alone tells the loop nothing. -/
@[simp] theorem Phase.isLast_elapse (phase : Phase α) (time : ℕ) :
    (phase.elapse time).isLast = phase.isLast := by
  cases phase <;> rfl

/-- The channel is closed when it was closed, and the loop is right if it knows of no other
edit. -/
structure Closes (events : List (Event α)) (s : Loop α) : Prop where
  closed_iff : s.closed = true ↔ Event.close ∈ events
  last : s.phase.isLast = true → s.closed = true ∧ s.waiting = []

/-- Every step leaves the loop right about the close. -/
theorem Step.closes (h : Step window s e t) (hs : Closes events s) :
    Closes (events ++ [e]) t := by
  obtain ⟨hclosed, hlast⟩ := hs
  cases h with
  | elapse time => constructor <;> simp_all
  | _ => constructor <;> simp_all [Phase.isLast]

/-! ## Windows without edits -/

/-- For some time after the edits of a batch were sent, no other one was sent. -/
def Quiet (events : List (Event α)) (built : List (List α)) (batch : List α) (time : ℕ) : Prop :=
  ∃ earlier later, events = earlier ++ later ∧ sent earlier = built.flatten ++ batch ∧
    sent later = [] ∧ time ≤ duration later

/-- A build for a batch may start: after the edits of the batch no other one was sent for a window,
or the channel is closed and they were the last ones. -/
def Due (window : ℕ) (events : List (Event α)) (built : List (List α)) (batch : List α) : Prop :=
  (∃ before after, events = before ++ .expire :: after ∧ Quiet before built batch window) ∨
    (Event.close ∈ events ∧ sent events = built.flatten ++ batch)

/-- Quiet lasts until the next edit. -/
theorem Quiet.concat {built : List (List α)} {batch : List α} {time : ℕ}
    (h : Quiet events built batch time) (hedit : e.edit? = none) :
    Quiet (events ++ [e]) built batch (time + e.time) := by
  obtain ⟨earlier, later, rfl, hearlier, hlater, htime⟩ := h
  refine ⟨earlier, later ++ [e], by simp, hearlier, ?_, ?_⟩
  · simp [hlater, hedit]
  · rw [duration_append]
    exact Nat.add_le_add_right htime e.time

/-- It is quiet from the moment at which the last edit is taken. -/
theorem Accounted.quiet (h : Accounted events s) (hwaiting : s.waiting = []) :
    Quiet events s.batches s.phase.batch 0 := by
  refine ⟨events, [], by simp, ?_, rfl, Nat.zero_le _⟩
  rw [h, hwaiting, List.append_nil]

/-- A build that is due stays due. -/
theorem Due.concat {built : List (List α)} {batch : List α} (h : Due window events built batch)
    (hedit : Event.close ∈ events → e.edit? = none) : Due window (events ++ [e]) built batch := by
  rcases h with ⟨before, after, rfl, hquiet⟩ | ⟨hclose, hsent⟩
  · exact .inl ⟨before, after ++ [e], by simp, hquiet⟩
  · refine .inr ⟨List.mem_append_left _ hclose, ?_⟩
    simp [hsent, hedit hclose]

/-- A wait for quiet has lasted as long as no edit came, and a coming build is due. -/
def Awaits (window : ℕ) (events : List (Event α)) (s : Loop α) : Prop :=
  match s.phase with
  | .settling batch elapsed => s.waiting = [] → Quiet events s.batches batch elapsed
  | .ready batch _ => Due window events s.batches batch
  | _ => True

/-- Every step leaves waits and coming builds as they should be. -/
theorem Step.awaits (h : Step window s e t) (hs : Awaits window events s)
    (hclosed : s.closed = true ↔ Event.close ∈ events) (ht : Accounted (events ++ [e]) t) :
    Awaits window (events ++ [e]) t := by
  cases h with
  | edit s content =>
    obtain ⟨phase, waiting, closed, batches, builds⟩ := s
    cases phase with
    | settling batch elapsed => intro hwaiting; simp at hwaiting
    | ready batch last => exact Due.concat hs fun hclose => by simp [← hclosed] at hclose
    | _ => trivial
  | close s =>
    obtain ⟨phase, waiting, closed, batches, builds⟩ := s
    cases phase with
    | settling batch elapsed => exact fun hwaiting => (hs hwaiting).concat rfl
    | ready batch last => exact Due.concat hs fun _ => rfl
    | _ => trivial
  | elapse time =>
    obtain ⟨phase, waiting, closed, batches, builds⟩ := s
    cases phase with
    | settling batch elapsed => exact fun hwaiting => (hs hwaiting).concat rfl
    | ready batch last => exact Due.concat hs fun _ => rfl
    | _ => trivial
  -- a wait that starts now has lasted no time
  | takeFirst | takeMore | resume => exact fun hwaiting => ht.quiet hwaiting
  | closeSettling | closeDraining =>
    refine .inr ⟨?_, ?_⟩
    · simpa using hclosed
    · simpa [Accounted, Phase.batch] using ht
  | expire s batch elapsed hwindow =>
    obtain ⟨earlier, later, hsplit, hearlier, hlater, htime⟩ := hs rfl
    have htime' : window ≤ duration later := Nat.le_trans hwindow htime
    exact .inl ⟨events, [], rfl, earlier, later, hsplit, hearlier, hlater, htime'⟩
  | takeLate | stopIdle | stopDrained | build | finishLast | finish | rest => trivial

/-! ## The next batch -/

/-- Edits that the next batch will have: those at hand, and after a build those in the channel. -/
def Loop.gathered (s : Loop α) : List α :=
  match s.phase with
  | .draining batch => batch ++ s.waiting
  | phase => phase.batch

/-- The batch that comes after some others starts with some edits, if it is there already. -/
def Follows (built : List (List α)) (edits : List α) (s : Loop α) : Prop :=
  (s.batches = built ∧ edits <+: s.gathered) ∨
    ∃ batch later, s.batches = built ++ batch :: later ∧ edits <+: batch

/-- Batches are only added. -/
theorem Step.batches_grow (h : Step window s e t) : s.batches <+: t.batches := by
  cases h with
  | build s batch last => exact List.prefix_append _ _
  | _ => exact List.prefix_refl _

/-- Every step leaves the edits that a batch starts with to that batch. -/
theorem Step.follows (h : Step window s e t) {built : List (List α)} {edits : List α}
    (hs : Follows built edits s) : Follows built edits t := by
  rcases hs with ⟨rfl, hedits⟩ | ⟨batch, later, hbatches, hedits⟩
  · cases h with
    | edit s content =>
      obtain ⟨phase, waiting, closed, batches, builds⟩ := s
      cases phase with
      | draining batch =>
        exact .inl ⟨rfl, hedits.trans ⟨[content], List.append_assoc ..⟩⟩
      | _ => exact .inl ⟨rfl, hedits⟩
    | elapse time =>
      obtain ⟨phase, waiting, closed, batches, builds⟩ := s
      cases phase <;> exact .inl ⟨rfl, hedits⟩
    | takeFirst s edit waiting =>
      exact .inl ⟨rfl, (List.prefix_nil.mp hedits) ▸ List.nil_prefix⟩
    | takeMore s edit waiting batch elapsed =>
      exact .inl ⟨rfl, hedits.trans (List.prefix_append ..)⟩
    | takeLate s edit waiting batch =>
      exact .inl ⟨rfl, by simpa [Loop.gathered] using hedits⟩
    | closeDraining | stopDrained | rest | resume =>
      exact .inl ⟨rfl, by simpa [Loop.gathered, Phase.batch] using hedits⟩
    | build s batch last => exact .inr ⟨batch, [], rfl, hedits⟩
    | finish s => exact .inl ⟨rfl, (List.prefix_nil.mp hedits) ▸ List.nil_prefix⟩
    | close | stopIdle | closeSettling | expire | finishLast => exact .inl ⟨rfl, hedits⟩
  · obtain ⟨more, hmore⟩ := h.batches_grow
    exact .inr ⟨batch, later ++ more, by rw [← hmore, hbatches]; simp, hedits⟩

/-! ## The end of the loop -/

/-- How many moves the loop makes at most before it waits for an edit or ends. -/
def Phase.remaining : Phase α → ℕ
  | idle => 1
  | settling _ _ => 5
  | ready _ last => if last then 2 else 4
  | building last => if last then 1 else 3
  | draining [] => 2
  | draining (_ :: _) => 6
  | finished => 0

/-- Time makes no work. -/
@[simp] theorem Phase.remaining_elapse (phase : Phase α) (time : ℕ) :
    (phase.elapse time).remaining = phase.remaining := by
  cases phase <;> rfl

/-- An edit makes work for five moves, and every move takes one away. -/
theorem Step.remaining (h : Step window s e t) :
    e.isMove.toNat + (t.phase.remaining + 5 * t.waiting.length) ≤
      s.phase.remaining + 5 * s.waiting.length + 5 * e.edit?.toList.length := by
  cases h with
  | elapse time => simp [Event.isMove]
  | takeLate s edit waiting batch =>
    cases batch <;> simp [Event.isMove, Phase.remaining, Event.edit?] <;> omega
  | build s batch last => cases last <;> simp [Event.isMove, Phase.remaining, Event.edit?] <;> omega
  | _ => simp [Event.isMove, Phase.remaining, Event.edit?] <;> omega

/-- A loop that has not ended can move, unless it waits on an open channel: for an edit, or for a
window to pass. -/
theorem exists_move (window : ℕ) (s : Loop α) : s.phase = .finished ∨
    (∃ e, e.isMove = true ∧ (s.step? window e).isSome = true) ∨
      (s.closed = false ∧ (s.phase = .idle ∧ s.waiting = [] ∨
        (s.run? window [.elapse window, .expire]).isSome = true)) := by
  obtain ⟨phase, waiting, closed, batches, builds⟩ := s
  cases phase with
  | finished => exact .inl rfl
  | ready batch last => exact .inr (.inl ⟨.build, rfl, rfl⟩)
  | building last => exact .inr (.inl ⟨.finish, rfl, rfl⟩)
  | idle =>
    cases waiting with
    | cons edit waiting => exact .inr (.inl ⟨.take, rfl, rfl⟩)
    | nil =>
      cases closed with
      | true => exact .inr (.inl ⟨.hearClose, rfl, rfl⟩)
      | false => exact .inr (.inr ⟨rfl, .inl ⟨rfl, rfl⟩⟩)
  | settling batch elapsed =>
    cases waiting with
    | cons edit waiting => exact .inr (.inl ⟨.take, rfl, rfl⟩)
    | nil =>
      cases closed with
      | true => exact .inr (.inl ⟨.hearClose, rfl, rfl⟩)
      | false =>
        refine .inr (.inr ⟨rfl, .inr ?_⟩)
        simp [Loop.run?, Loop.step?, Phase.elapse]
  | draining batch =>
    cases waiting with
    | cons edit waiting => exact .inr (.inl ⟨.take, rfl, rfl⟩)
    | nil =>
      cases closed with
      | true => cases batch <;> exact .inr (.inl ⟨.hearClose, rfl, rfl⟩)
      | false => cases batch <;> exact .inr (.inl ⟨.settle, rfl, rfl⟩)

/-! ## Whole histories -/

/-- What every history keeps. -/
structure Sound (window : ℕ) (events : List (Event α)) (s : Loop α) : Prop where
  accounted : Accounted events s
  filled : s.phase.Filled ∧ ∀ batch ∈ s.batches, batch ≠ []
  counted : Counted events s
  closes : Closes events s
  awaits : Awaits window events s
  bounded : moves events + (s.phase.remaining + 5 * s.waiting.length) ≤
    5 * (sent events).length + 1

/-- Every history keeps all of it. -/
theorem sound_of_run (h : Loop.start.run? window events = some s) : Sound window events s := by
  refine Runs.history_keeps (Sound window) ?_ (fun events s e t hs hstep => ?_) h
  · exact ⟨rfl, ⟨trivial, by simp [Loop.start]⟩, ⟨rfl, rfl⟩, ⟨by simp [Loop.start], by
      simp [Loop.start, Phase.isLast]⟩, trivial, by simp [moves, sent, Loop.start, Phase.remaining]⟩
  · have hcases := step_of_step? hstep
    have haccounted := hcases.accounted hs.accounted
    have hbounded := hs.bounded
    have hremaining := hcases.remaining
    refine ⟨haccounted, hcases.filled hs.filled, hcases.counted hs.counted,
      hcases.closes hs.closes, hcases.awaits hs.awaits hs.closes.closed_iff haccounted, ?_⟩
    simp only [moves_append, moves_singleton, sent_append, sent_singleton, List.length_append]
    omega

/-- Batches are only added. -/
theorem batches_grow_of_run (h : s.run? window events = some t) : s.batches <+: t.batches :=
  Runs.run_keeps (fun u => s.batches <+: u.batches) (List.prefix_refl _)
    (fun _ _ _ hu hstep => hu.trans (step_of_step? hstep).batches_grow) h

/-- A build in a history is for the batch that follows those of the builds before it, and is due. -/
theorem due_of_build {before after : List (Event α)}
    (h : Loop.start.run? window (before ++ .build :: after) = some s) :
    ∃ batch, s.batches[started before]? = some batch ∧
      Due window before (s.batches.take (started before)) batch := by
  obtain ⟨u, v, hbefore, hstep, hafter⟩ := Runs.exists_step h
  have hu := sound_of_run hbefore
  have hcount := hu.counted.started
  obtain ⟨later, hlater⟩ := batches_grow_of_run hafter
  cases step_of_step? hstep with
  | build u batch last =>
    refine ⟨batch, ?_, ?_⟩
    · simp [← hlater, ← hcount]
    · have htake : s.batches.take (started before) = u.batches := by
        simp [← hlater, ← hcount]
      rw [htake]
      exact hu.awaits

/-- The edits in the channel at the end of a build are left to the next batch. -/
theorem follows_of_finish {before after : List (Event α)} {middle : Loop α}
    (h : Loop.start.run? window (before ++ .finish :: after) = some s)
    (hbefore : Loop.start.run? window before = some middle) :
    Follows middle.batches middle.waiting s := by
  obtain ⟨u, v, hu, hstep, hafter⟩ := Runs.exists_step h
  obtain rfl : u = middle := Option.some.inj (hu.symm.trans hbefore)
  have hend : Follows u.batches u.waiting v := by
    cases step_of_step? hstep with
    | finish u => exact .inl ⟨rfl, List.prefix_refl _⟩
    | finishLast u =>
      -- the last build starts when nothing can come after it
      have hwaiting : u.waiting = [] := ((sound_of_run hu).closes.last rfl).2
      exact .inl ⟨rfl, hwaiting ▸ List.nil_prefix⟩
  exact Runs.run_keeps (Follows u.batches u.waiting) hend
    (fun _ _ _ hs hnext => (step_of_step? hnext).follows hs) hafter

/-- When the loop has ended, all edits are in batches. -/
theorem Sound.flatten_eq (h : Sound window events s) (hphase : s.phase = .finished) :
    s.batches.flatten = sent events := by
  have hlast := h.closes.last (by rw [hphase]; rfl)
  have haccounted := h.accounted
  rw [Accounted, hphase, hlast.2, Phase.batch, List.append_nil, List.append_nil] at haccounted
  exact haccounted.symm

/-- Lists that are not empty are no more than what they hold together. -/
theorem length_le_length_flatten {batches : List (List α)} (h : ∀ batch ∈ batches, batch ≠ []) :
    batches.length ≤ batches.flatten.length := by
  induction batches with
  | nil => exact Nat.le_refl _
  | cons batch batches ih =>
    have hpos : 0 < batch.length := List.length_pos_iff.mpr (h batch List.mem_cons_self)
    have hrest := ih fun other hother => h other (List.mem_cons_of_mem _ hother)
    simp only [List.length_cons, List.flatten_cons, List.length_append]
    omega

/-- What a history of the loop amounts to. -/
structure Debounced (window : ℕ) (events : List (Event α)) (s : Loop α) : Prop where
  /-- No edit is lost, and none is out of order. -/
  accounted : Accounted events s
  /-- No build is for nothing. -/
  nonempty : ∀ batch ∈ s.batches, batch ≠ []
  /-- There is one batch for each build that starts. -/
  length_batches : s.batches.length = started events
  /-- A build starts only when it is due. -/
  due : ∀ before after, events = before ++ .build :: after →
    ∃ batch, s.batches[started before]? = some batch ∧
      Due window before (s.batches.take (started before)) batch
  /-- All edits that are found in the channel when a build ends are in the next batch. -/
  followed : ∀ before after middle, events = before ++ .finish :: after →
    Loop.start.run? window before = some middle →
      (∀ batch, s.batches[started before]? = some batch → middle.waiting <+: batch) ∧
        (s.phase = .finished → middle.waiting ≠ [] → started before < started events)
  /-- When the loop ends, all edits are in batches. The number it yields is that of the builds that
  were started, and these are no more than the edits and at least one if there was an edit. -/
  finished : s.phase = .finished → s.batches.flatten = sent events ∧
    s.builds = started events ∧ (s.builds = 0 ↔ sent events = []) ∧
    s.builds ≤ (sent events).length
  /-- The loop does not go on for ever. -/
  bounded : moves events ≤ 5 * (sent events).length + 1
  /-- The loop has ended, or can move, or waits on a channel that is still open: for an edit, or for
  a window to pass. -/
  awake : s.phase = .finished ∨ (∃ e, e.isMove = true ∧ (s.step? window e).isSome = true) ∨
    (Event.close ∉ events ∧ (s.phase = .idle ∧ s.waiting = [] ∨
      (s.run? window [.elapse window, .expire]).isSome = true))

/-- Debouncing loses no edit and builds for none, in whatever order edits come, windows pass and
builds end. -/
theorem history_is_debounced (window : ℕ) {events : List (Event α)} {s : Loop α}
    (h : Loop.start.run? window events = some s) : Debounced window events s := by
  have hs := sound_of_run h
  exact {
    accounted := hs.accounted
    nonempty := hs.filled.2
    length_batches := hs.counted.started
    due := by
      rintro before after rfl
      exact due_of_build h
    followed := by
      rintro before after middle rfl hmiddle
      have hcount := (sound_of_run hmiddle).counted.started
      rcases follows_of_finish h hmiddle with ⟨hbatches, hedits⟩ | ⟨next, later, hbatches, hedits⟩
      · refine ⟨fun batch hbatch => ?_, fun hphase hwaiting => ?_⟩
        · simp [hbatches, ← hcount] at hbatch
        · rw [Loop.gathered, hphase] at hedits
          exact absurd (List.prefix_nil.mp hedits) hwaiting
      · refine ⟨fun batch hbatch => ?_, fun _ _ => ?_⟩
        · obtain rfl : next = batch := by simpa [hbatches, ← hcount] using hbatch
          exact hedits
        · rw [← hs.counted.started, hbatches, ← hcount, List.length_append, List.length_cons]
          omega
    finished := fun hphase => by
      have hflatten := hs.flatten_eq hphase
      have hbuilds : s.batches.length = s.builds := by
        simp [hs.counted.ended, hphase, Phase.running]
      have hle := length_le_length_flatten hs.filled.2
      refine ⟨hflatten, hbuilds.symm.trans hs.counted.started, ?_, by rwa [← hbuilds, ← hflatten]⟩
      rw [← hflatten, ← hbuilds, List.length_eq_zero_iff]
      constructor
      · intro hnil
        rw [hnil, List.flatten_nil]
      · intro hnil
        exact List.length_eq_zero_iff.mp (by rw [hnil] at hle; exact Nat.le_zero.mp hle)
    bounded := Nat.le_trans (Nat.le_add_right ..) hs.bounded
    awake := by
      have hopen : s.closed = false → Event.close ∉ events := fun hclosed => by
        rw [← hs.closes.closed_iff, hclosed]
        exact Bool.false_ne_true
      exact (exists_move window s).imp_right (Or.imp_right (And.imp_left hopen)) }

/-- A history in which edits come during a wait, between a wait and its build, during a build and
while the loop collects them; the channel is closed in the middle of a wait. -/
def rehearsal : List (Event ℕ) :=
  [.edit 1, .take, .elapse 5, .edit 2, .take, .elapse 20, .expire, .edit 3, .build, .edit 4,
    .finish, .take, .take, .edit 5, .take, .settle, .elapse 7, .edit 6, .take, .close, .hearClose,
    .build, .finish]

/-- The six edits of the rehearsal are built for in two batches. -/
theorem rehearsal_is_debounced :
    Loop.start.run? 20 rehearsal = some ⟨.finished, [], true, [[1, 2], [3, 4, 5, 6]], 2⟩ ∧
      Debounced 20 rehearsal ⟨.finished, [], true, [[1, 2], [3, 4, 5, 6]], 2⟩ := by
  have hrun : Loop.start.run? 20 rehearsal =
      some ⟨.finished, [], true, [[1, 2], [3, 4, 5, 6]], 2⟩ := by decide
  exact ⟨hrun, history_is_debounced 20 hrun⟩

end Montage.Debounce
