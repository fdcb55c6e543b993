import Montage.Diagnostic
import Montage.Project

/-!
# The rule on references

Pieces are cut from elements of their own category that are declared before them, groups are for
existing elements of their category, and entries refer to existing elements and entries.
-/

namespace Montage.Rule

/-- The word for a category. -/
def categoryText : Category → String
  | .video => "video"
  | .audio => "audio"
  | .textual => "text"

/-- Examines the source of a piece that is declared at an index. -/
def sourceFindings (p : Project) (index : Nat) (element : Element) : List Diagnostic :=
  match element.source? with
  | none => []
  | some source =>
    let label := categoryText element.category
    match p.elements.findIdx? (fun e => e.name = source), p.element? source with
    | some sourceIndex, some found =>
      if found.category ≠ element.category then
        [.error "extract-source" s!"Extract source '{source}' must be a {label} element"
          element.name]
      else if index ≤ sourceIndex then
        [.error "extract-source" s!"Extract source '{source}' must be declared before the extract"
          element.name]
      else []
    | _, _ => [.error "extract-source" s!"Source {label} not found" element.name]

/-- The category of the elements a group is for. -/
def groupCategory : OptionGroup → Category
  | .video _ => .video
  | .audio _ => .audio
  | .text _ => .textual

/-- Examines the members of a group, some of them being named already. -/
def memberFindings (p : Project) (group : String) (expected : Category) (named : List String) :
    List String → List Diagnostic
  | [] => []
  | name :: rest =>
    (if name ∈ named then [.error "group-member" "Element names must be unique" group] else []) ++
    (match p.element? name with
      | none => [.error "group-member" s!"Group refers to unknown element '{name}'" group]
      | some element =>
        if element.category ≠ expected then
          [.error "group-member"
            s!"Element '{name}' cannot be in a {categoryText expected} group" group]
        else []) ++
    memberFindings p group expected (name :: named) rest

/-- Examines the elements and entries an entry refers to. -/
def entryFindings (p : Project) (entry : Entry) : List Diagnostic :=
  (if (p.element? entry.element).isNone then
    [.error "timeline-reference"
      s!"Timeline element refers to unknown element '{entry.element}'" entry.name]
    else []) ++
  (entry.relativeTarget?.toList ++ (entry.layer.map LayerRelation.target).toList).flatMap
    fun target =>
      if (p.entry? target).isNone then
        [.error "timeline-reference"
          s!"Timeline element refers to unknown timeline element '{target}'" entry.name]
      else []

/-- Examines all references of a project. -/
def referenceFindings (p : Project) : List Diagnostic :=
  (p.elements.zipIdx.flatMap fun e => sourceFindings p e.2 e.1) ++
    (p.groups.flatMap fun g => memberFindings p g.name (groupCategory g) [] g.members) ++
    p.timeline.flatMap (entryFindings p)

end Montage.Rule
