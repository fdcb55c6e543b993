import Montage.Options.Category

/-!
# Merging options

An element has options of its own and those of its groups. Of competing options the first one
wins, and the own options come first. The winners are presented by rank; those without a rank
follow in the order in which they were found.
-/

namespace Montage

variable {O : Type} [OptionCategory O]

/-- The options whose key was not taken before. -/
def firstOfEachKey (taken : List (OptionCategory.Key O)) : List O → List O
  | [] => []
  | o :: rest =>
    if OptionCategory.key o ∈ taken then firstOfEachKey taken rest
    else o :: firstOfEachKey (OptionCategory.key o :: taken) rest

/-- Whether an option may be presented in front of another one. -/
def presentedBefore (a b : O) : Bool :=
  match OptionCategory.rank a, OptionCategory.rank b with
  | some r, some s => r ≤ s
  | some _, none => true
  | none, some _ => false
  | none, none => true

/-- The options of an element: its own, then those of its groups. -/
def mergeOptions (own shared : List O) : List O :=
  (firstOfEachKey [] (own ++ shared)).mergeSort presentedBefore

end Montage
