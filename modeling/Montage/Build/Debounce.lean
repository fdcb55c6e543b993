/-!
# Debouncing

Edits of a document come over a channel, often many at once. A loop collects them into batches and
builds once for each batch: a build starts after a window without edits, or when the channel is
closed. Edits that come while a build runs wait for the next batch.

The loop and its channel form a machine. Its events are the moves of the sender, the moves of the
loop, and the passing of time; the machine says which events are possible and what they lead to, in
whatever order they come. The loop never looks into an edit, so edits may be of any type.
-/

namespace Montage.Debounce

variable {α : Type}

/-- What the loop is doing. -/
inductive Phase (α : Type) where
  /-- Waiting for the first edit of a batch. -/
  | idle
  /-- Waiting for a window without edits, with some edits in the batch, for some time already. -/
  | settling (batch : List α) (elapsed : Nat)
  /-- About to build for a batch, and for the last time if the channel was found closed. -/
  | ready (batch : List α) (last : Bool)
  /-- Building, and for the last time if the channel was found closed. -/
  | building (last : Bool)
  /-- Collecting the edits that came while a build ran. -/
  | draining (batch : List α)
  | finished
  deriving DecidableEq, Repr

/-- What the loop is doing some time later, when nothing else happened. -/
def Phase.elapse (time : Nat) : Phase α → Phase α
  | settling batch elapsed => settling batch (elapsed + time)
  | phase => phase

/-- What can happen. -/
inductive Event (α : Type) where
  /-- The sender sends an edit. -/
  | edit (content : α)
  /-- The sender closes the channel. -/
  | close
  /-- Some time passes. -/
  | elapse (time : Nat)
  /-- The loop takes an edit out of the channel. -/
  | take
  /-- The loop finds the channel empty and closed. -/
  | hearClose
  /-- The loop has waited for a window, and the channel is empty and open. -/
  | expire
  /-- The loop starts a build. -/
  | build
  /-- The running build ends. -/
  | finish
  /-- The loop finds the channel empty and open after a build. -/
  | settle
  deriving DecidableEq, Repr

/-- The state of the loop and of its channel. -/
structure Loop (α : Type) where
  phase : Phase α
  /-- The edits in the channel, the oldest one first. -/
  waiting : List α
  closed : Bool
  /-- The batches that builds were started for, in order. -/
  batches : List (List α)
  /-- How many builds have ended. -/
  builds : Nat
  deriving DecidableEq, Repr

namespace Loop

/-- A loop before anything happened. -/
def start : Loop α :=
  ⟨.idle, [], false, [], 0⟩

/-- What taking an edit leads to. A wait for quiet starts anew. -/
def take? (s : Loop α) : Option (Loop α) :=
  match s.waiting with
  | [] => none
  | edit :: waiting =>
    match s.phase with
    | .idle => some { s with waiting := waiting, phase := .settling [edit] 0 }
    | .settling batch _ =>
      some { s with waiting := waiting, phase := .settling (batch ++ [edit]) 0 }
    | .draining batch => some { s with waiting := waiting, phase := .draining (batch ++ [edit]) }
    | _ => none

/-- What finding the channel closed leads to: a last build for the edits at hand, if there are
any. -/
def hearClose? (s : Loop α) : Option (Loop α) :=
  if s.waiting.isEmpty && s.closed then
    match s.phase with
    | .idle => some { s with phase := .finished }
    | .settling batch _ => some { s with phase := .ready batch true }
    | .draining [] => some { s with phase := .finished }
    | .draining batch => some { s with phase := .ready batch true }
    | _ => none
  else none

/-- What finding the channel empty after a build leads to. -/
def settle? (s : Loop α) : Option (Loop α) :=
  if s.waiting.isEmpty && !s.closed then
    match s.phase with
    | .draining [] => some { s with phase := .idle }
    | .draining batch => some { s with phase := .settling batch 0 }
    | _ => none
  else none

/-- What an event leads to, if it is possible. -/
def step? (window : Nat) (s : Loop α) : Event α → Option (Loop α)
  | .edit content => if s.closed then none else some { s with waiting := s.waiting ++ [content] }
  | .close => if s.closed then none else some { s with closed := true }
  | .elapse time => some { s with phase := s.phase.elapse time }
  | .take => s.take?
  | .hearClose => s.hearClose?
  | .expire =>
    match s.phase with
    | .settling batch elapsed =>
      if s.waiting.isEmpty && !s.closed && window ≤ elapsed then
        some { s with phase := .ready batch false }
      else none
    | _ => none
  | .build =>
    match s.phase with
    | .ready batch last =>
      some { s with phase := .building last, batches := s.batches ++ [batch] }
    | _ => none
  | .finish =>
    match s.phase with
    | .building last =>
      some { s with phase := if last then .finished else .draining [], builds := s.builds + 1 }
    | _ => none
  | .settle => s.settle?

/-- What a sequence of events leads to, if each of them is possible in its turn. -/
def run? (window : Nat) (s : Loop α) (events : List (Event α)) : Option (Loop α) :=
  events.foldlM (step? window) s

/-- The next move of the loop when the sender stays silent, or the time until it can move. -/
def move? (window : Nat) (s : Loop α) : Option (Event α) :=
  match s.phase with
  | .finished => none
  | .ready _ _ => some .build
  | .building _ => some .finish
  | phase =>
    if !s.waiting.isEmpty then some .take
    else if s.closed then some .hearClose
    else
      match phase with
      | .settling _ elapsed =>
        some (if window ≤ elapsed then .expire else .elapse (window - elapsed))
      | .draining _ => some .settle
      | _ => none

end Loop

/-! ## Sessions -/

/-- The events of the sender while a build runs, given the numbers of edits during this build and
the later ones. The channel is closed in the last build of the list, and in a build without
edits. -/
def duringBuild : List Nat → List (Event Unit)
  | [] => []
  | n :: later =>
    List.replicate n (.edit ()) ++ (if n = 0 ∨ later = [] then [.close] else [])

/-- Lets the loop move as long as it can, over at most some number of moves. Edits come only while
builds run. -/
def Loop.play (window : Nat) : Nat → List Nat → Loop Unit → Loop Unit
  | 0, _, s => s
  | fuel + 1, during, s =>
    match s.move? window with
    | none => s
    | some .finish =>
      match s.run? window (duringBuild during ++ [.finish]) with
      | some s => play window fuel during.tail s
      | none => s
    | some e =>
      match s.step? window e with
      | some s => play window fuel during s
      | none => s

/-- The loop after a session in which some edits wait at the start and others come while builds
run. -/
def session (edits : Nat) (during : List Nat) : Loop Unit :=
  -- the sender is silent for longer than any window, so its length does not matter
  let window := 20
  let total := edits + during.foldl (· + ·) 0
  let opening := List.replicate edits (.edit ()) ++ (if during = [] then [.close] else [])
  match Loop.start.run? window opening with
  -- an edit is taken in one move, and each of at most `total` builds has five more
  | some s => s.play window (6 * total + 6) during
  | none => Loop.start

end Montage.Debounce
