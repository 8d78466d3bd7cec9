import Harness.Foundation.OrderedMap
import Mathlib.Data.List.DropRight

namespace Harness.FsSearch

open Harness.Foundation

abbrev Path := List Char

section Segments

variable (sep : Char)

def stripLeadingSeparators (path : Path) : Path := path.dropWhile (· = sep)

def relativeToSearchRoot (path root : Path) : Path :=
  if root = ['.'] then if ['.', sep] <+: path then path.drop 2 else path
  else
    let trimmedRoot := root.rdropWhile (· = sep)
    if trimmedRoot = [] then stripLeadingSeparators sep path
    else if path = trimmedRoot then []
    else if trimmedRoot ++ [sep] <+: path then path.drop (trimmedRoot.length + 1)
    else path

def topLevelSegment (path : Path) : Path :=
  let trimmed := stripLeadingSeparators sep path
  match trimmed.idxOf? sep with
  | none => trimmed
  | some cut => trimmed.take cut

end Segments

structure GlobSample where
  items : List Path
  shown : Nat
  total : Nat

structure ActiveGroup where
  key : Path
  items : List Path
  index : Nat
  current : Path

def ActiveGroup.next (group : ActiveGroup) : Option ActiveGroup :=
  match group.items[group.index + 1]? with
  | some path => some { group with index := group.index + 1, current := path }
  | none => none

structure Sampling where
  taken : OrderedMap Path (List Path)
  count : Nat

namespace Sampling

def start : Sampling := ⟨.empty, 0⟩

def take (sampling : Sampling) (group : ActiveGroup) : Sampling where
  taken := match sampling.taken.get? group.key with
    | none => sampling.taken.set group.key [group.current]
    | some bucket => sampling.taken.set group.key (bucket ++ [group.current])
  count := sampling.count + 1

/-- One round over the active groups, cut where the page is full; the groups of the next round. -/
def round (maxItems : Nat) : List ActiveGroup → Sampling → Sampling × List ActiveGroup
  | [], sampling => (sampling, [])
  | group :: active, sampling =>
    if maxItems ≤ sampling.count then (sampling, [])
    else
      let rest := round maxItems active (sampling.take group)
      (rest.1, group.next.toList ++ rest.2)

theorem count_le_round (maxItems : Nat) (active : List ActiveGroup) (sampling : Sampling) :
    sampling.count ≤ (round maxItems active sampling).1.count := by
  induction active generalizing sampling with
  | nil => exact Nat.le_refl _
  | cons group active ih =>
    rw [round]
    split
    · exact Nat.le_refl _
    · exact Nat.le_of_succ_le (ih (sampling.take group))

theorem count_lt_round {maxItems : Nat} {active : List ActiveGroup} {sampling : Sampling}
    (hactive : active ≠ []) (hcount : sampling.count < maxItems) :
    sampling.count < (round maxItems active sampling).1.count := by
  obtain ⟨group, active, rfl⟩ := List.exists_cons_of_ne_nil hactive
  rw [round, if_neg (Nat.not_le.mpr hcount)]
  exact count_le_round maxItems active (sampling.take group)

def rounds (maxItems : Nat) (active : List ActiveGroup) (sampling : Sampling) : Sampling :=
  if h : active ≠ [] ∧ sampling.count < maxItems then
    have hless := count_lt_round h.1 h.2
    rounds maxItems (round maxItems active sampling).2 (round maxItems active sampling).1
  else sampling
termination_by maxItems - sampling.count
decreasing_by omega

end Sampling

def addToGroup (keyOf : Path → Path) (groups : OrderedMap Path (List Path)) (path : Path) :
    OrderedMap Path (List Path) :=
  match groups.get? (keyOf path) with
  | none => groups.set (keyOf path) [path]
  | some group => groups.set (keyOf path) (group ++ [path])

def firstTurn (entry : Path × List Path) : Option ActiveGroup :=
  entry.2.head?.map fun path => ⟨entry.1, entry.2, 0, path⟩

def activeGroups (groups : OrderedMap Path (List Path)) : List ActiveGroup :=
  groups.entries.filterMap firstTurn

def sampleAcrossTopLevel (sep : Char) (paths : List Path) (maxItems : Nat) (root : Path) :
    GlobSample :=
  let keyOf (path : Path) := topLevelSegment sep (relativeToSearchRoot sep path root)
  let groups := paths.foldl (addToGroup keyOf) .empty
  let sampling := Sampling.rounds maxItems (activeGroups groups) .start
  ⟨sampling.taken.values.flatten, sampling.taken.size, groups.size⟩

end Harness.FsSearch
