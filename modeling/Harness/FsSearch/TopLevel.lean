import Harness.FsSearch.Glob

namespace Harness.FsSearch

section Spec

variable (sep : Char)

def segments (path : Path) : List Path := path.splitOn sep

def rootSegments (root : Path) : List Path := (segments sep root).rdropWhile (· = [])

/-- What a path has below the search root; outside of it, the whole path.  The root `.` is no part
of a path that is `.` itself. -/
def segmentsBelow (root path : Path) : List Path :=
  if rootSegments sep root <+: segments sep path ∧ ¬(root = ['.'] ∧ path = ['.']) then
    (segments sep path).drop (rootSegments sep root).length
  else segments sep path

def topLevelEntry (root path : Path) : Path :=
  ((segmentsBelow sep root path).find? (· ≠ [])).getD []

end Spec

variable {sep : Char}

theorem segments_append_cons (front back : Path) :
    segments sep (front ++ sep :: back) = segments sep front ++ segments sep back :=
  List.splitOn_append_cons_self front back

theorem segments_of_notMem {name : Path} (h : sep ∉ name) : segments sep name = [name] :=
  List.splitOn_eq_singleton h

theorem segments_sep (path : Path) : segments sep (sep :: path) = [] :: segments sep path :=
  segments_append_cons [] path

theorem segments_ne_nil (path : Path) : segments sep path ≠ [] := List.splitOn_ne_nil sep path

theorem stripLeadingSeparators_sep (path : Path) :
    stripLeadingSeparators sep (sep :: path) = stripLeadingSeparators sep path :=
  List.dropWhile_cons_of_pos (decide_eq_true rfl)

theorem topLevelSegment_sep (path : Path) :
    topLevelSegment sep (sep :: path) = topLevelSegment sep path := by
  rw [topLevelSegment, stripLeadingSeparators_sep, topLevelSegment]

theorem topLevelSegment_eq (path : Path) :
    topLevelSegment sep path = ((segments sep path).find? (· ≠ [])).getD [] := by
  induction path with
  | nil => rfl
  | cons letter path ih =>
    by_cases hsep : letter = sep
    · subst hsep
      rw [topLevelSegment_sep, ih, segments_sep]
      rfl
    · have hstrip : stripLeadingSeparators sep (letter :: path) = letter :: path :=
        List.dropWhile_cons_of_neg (by simpa using hsep)
      rw [topLevelSegment, hstrip]
      by_cases hmem : sep ∈ letter :: path
      · obtain ⟨name, rest, hpath, hname⟩ := List.eq_append_cons_of_mem hmem
        have hne : name ≠ [] := by
          rintro rfl
          exact hsep (List.cons.inj hpath).1
        have hcut : (letter :: path).idxOf? sep = some name.length := by
          rw [hpath, List.idxOf?, List.findIdx?_append, List.findIdx?_eq_none_iff.mpr]
          · simp [List.findIdx?_cons]
          · intro other hother
            exact beq_false_of_ne (ne_of_mem_of_not_mem hother hname)
        rw [hcut, hpath, segments_append_cons, segments_of_notMem hname]
        simp [hne]
      · have hcut : (letter :: path).idxOf? sep = none := List.idxOf?_eq_none_iff.mpr hmem
        rw [hcut, segments_of_notMem hmem]
        rfl

theorem getLast_segments {path : Path} (hne : path ≠ []) (hlast : path.getLast hne ≠ sep) :
    (segments sep path).getLast (segments_ne_nil path) ≠ [] := by
  induction path with
  | nil => exact absurd rfl hne
  | cons letter path ih =>
    by_cases hpath : path = []
    · subst hpath
      have hletter : sep ∉ [letter] := fun hmem => hlast (List.mem_singleton.mp hmem).symm
      simp [segments_of_notMem hletter]
    · rw [List.getLast_cons hpath] at hlast
      have hrest := ih hpath hlast
      by_cases hsep : letter = sep
      · subst hsep
        simp only [segments_sep, List.getLast_cons (segments_ne_nil path)]
        exact hrest
      · have hmore : segments sep (letter :: path) = (segments sep path).modifyHead (letter :: ·) := by
          rw [segments, List.splitOn_cons_eq_if_modifyHead, if_neg (by simpa using hsep), segments]
        simp only [hmore]
        obtain ⟨first, rest, hcons⟩ := List.exists_cons_of_ne_nil
          (segments_ne_nil path : segments sep path ≠ [])
        simp only [hcons, List.modifyHead_cons] at hrest ⊢
        by_cases hmany : rest = []
        · subst hmany
          exact List.cons_ne_nil _ _
        · rw [List.getLast_cons hmany] at hrest ⊢
          exact hrest

theorem rootSegments_eq (root : Path) :
    rootSegments sep root =
      if root.rdropWhile (· = sep) = [] then [] else segments sep (root.rdropWhile (· = sep)) := by
  induction root using List.reverseRecOn with
  | nil => rfl
  | append_singleton root letter ih =>
    by_cases hsep : letter = sep
    · subst hsep
      have hsegments : segments letter (root ++ [letter]) = segments letter root ++ [[]] :=
        segments_append_cons root []
      rw [List.rdropWhile_concat_pos (· = letter) _ _ (decide_eq_true rfl), ← ih, rootSegments,
        hsegments]
      exact List.rdropWhile_concat_pos _ _ _ (decide_eq_true rfl)
    · have hne : root ++ [letter] ≠ [] := by simp
      have hlast : (segments sep (root ++ [letter])).getLast (segments_ne_nil _) ≠ [] :=
        getLast_segments hne (by simpa using hsep)
      rw [List.rdropWhile_concat_neg _ _ _ (by simpa using hsep), if_neg hne, rootSegments,
        List.rdropWhile_eq_self_iff]
      intro _
      simpa using hlast

theorem intercalate_append {front back : List Path} (hfront : front ≠ []) (hback : back ≠ []) :
    [sep].intercalate (front ++ back) =
      [sep].intercalate front ++ sep :: [sep].intercalate back := by
  induction front with
  | nil => exact absurd rfl hfront
  | cons first front ih =>
    by_cases hrest : front = []
    · subst hrest
      rw [List.singleton_append, List.intercalate_cons_of_ne_nil hback, List.intercalate_singleton,
        List.append_assoc]
      rfl
    · rw [List.cons_append, List.intercalate_cons_of_ne_nil (by simp [hrest]), ih hrest,
        List.intercalate_cons_of_ne_nil hrest, List.append_assoc, List.append_assoc,
        List.append_assoc]

theorem segments_prefix_iff {front path : Path} :
    segments sep front <+: segments sep path ↔ path = front ∨ front ++ [sep] <+: path := by
  constructor
  · rintro ⟨rest, hrest⟩
    have hpath : [sep].intercalate (segments sep path) = path := List.intercalate_splitOn sep
    have hwhole : [sep].intercalate (segments sep front) = front := List.intercalate_splitOn sep
    rw [← hrest] at hpath
    by_cases hnil : rest = []
    · rw [hnil, List.append_nil, hwhole] at hpath
      exact .inl hpath.symm
    · rw [intercalate_append (segments_ne_nil front) hnil, hwhole] at hpath
      right
      rw [← hpath]
      exact ⟨[sep].intercalate rest, by simp⟩
  · rintro (rfl | ⟨rest, rfl⟩)
    · exact List.prefix_rfl
    · rw [List.append_assoc, List.singleton_append, segments_append_cons]
      exact List.prefix_append _ _

theorem segments_drop (front rest : Path) :
    (segments sep (front ++ sep :: rest)).drop (segments sep front).length = segments sep rest := by
  rw [segments_append_cons, List.drop_left]

theorem topLevelSegment_strip (path : Path) :
    topLevelSegment sep (stripLeadingSeparators sep path) = topLevelSegment sep path := by
  have hagain : stripLeadingSeparators sep (stripLeadingSeparators sep path) =
      stripLeadingSeparators sep path := List.dropWhile_idempotent _ path
  rw [topLevelSegment, topLevelSegment, hagain]

theorem topLevelSegment_outside {root path : Path}
    (h : ¬rootSegments sep root <+: segments sep path) :
    topLevelSegment sep path = topLevelEntry sep root path := by
  rw [topLevelEntry, segmentsBelow, if_neg fun hin => h hin.1, topLevelSegment_eq]

theorem topLevelSegment_bare {root : Path} (h : rootSegments sep root = []) (path : Path) :
    topLevelSegment sep path = topLevelEntry sep root path := by
  rw [topLevelEntry, segmentsBelow, h, List.length_nil, List.drop_zero, ite_self,
    topLevelSegment_eq]

theorem topLevelSegment_under {root front : Path} (hroot : rootSegments sep root = segments sep front)
    (rest : Path) (hdot : ¬(root = ['.'] ∧ front ++ sep :: rest = ['.'])) :
    topLevelSegment sep rest = topLevelEntry sep root (front ++ sep :: rest) := by
  have hunder : segments sep front <+: segments sep (front ++ sep :: rest) :=
    segments_prefix_iff.mpr (.inr ⟨rest, by simp⟩)
  rw [topLevelEntry, segmentsBelow, hroot, if_pos ⟨hunder, hdot⟩, segments_drop, topLevelSegment_eq]

theorem topLevelSegment_relativeToSearchRoot (root path : Path) :
    topLevelSegment sep (relativeToSearchRoot sep path root) = topLevelEntry sep root path := by
  have hsegments : rootSegments sep root = _ := rootSegments_eq root
  rw [relativeToSearchRoot]
  by_cases hdot : root = ['.']
  · rw [if_pos hdot]
    by_cases hsep : sep = '.'
    · have hbare : rootSegments sep root = [] := by
        subst hdot hsep
        rfl
      split
      · next hunder =>
        obtain ⟨rest, rfl⟩ := hunder
        rw [← topLevelSegment_bare hbare, hsep]
        exact ((topLevelSegment_sep _).trans (topLevelSegment_sep _)).symm
      · exact topLevelSegment_bare hbare path
    · have hroot : rootSegments sep root = segments sep ['.'] := by
        have htrimmed : ['.'].rdropWhile (· = sep) = ['.'] := by
          rw [List.rdropWhile_singleton, if_neg (by simpa using Ne.symm hsep)]
        rw [hsegments, hdot, htrimmed, if_neg (List.cons_ne_nil _ _)]
      split
      · next hunder =>
        obtain ⟨rest, rfl⟩ := hunder
        exact topLevelSegment_under hroot rest (by simp)
      · next hunder =>
        by_cases hself : path = ['.']
        · rw [topLevelEntry, segmentsBelow, if_neg (not_not_intro ⟨hdot, hself⟩ ·.2),
            topLevelSegment_eq]
        · apply topLevelSegment_outside
          rw [hroot, segments_prefix_iff, not_or]
          exact ⟨hself, hunder⟩
  · rw [if_neg hdot]
    dsimp only
    split
    · next hnil =>
      rw [hnil, if_pos rfl] at hsegments
      rw [topLevelSegment_strip, topLevelSegment_bare hsegments]
    · next hne =>
      rw [if_neg hne] at hsegments
      split
      · next hself =>
        rw [topLevelEntry, segmentsBelow, hsegments, ← hself,
          if_pos ⟨List.prefix_rfl, fun h => hdot h.1⟩, List.drop_length]
        rfl
      · next hself =>
        split
        · next hunder =>
          obtain ⟨rest, rfl⟩ := hunder
          have hdrop : (root.rdropWhile (· = sep) ++ [sep] ++ rest).drop
              (root.rdropWhile (· = sep) ++ [sep]).length = rest := List.drop_left
          rw [List.length_append, List.length_singleton] at hdrop
          rw [hdrop, List.append_assoc]
          exact topLevelSegment_under hsegments rest fun h => hdot h.1
        · next hunder =>
          apply topLevelSegment_outside
          rw [hsegments, segments_prefix_iff, not_or]
          exact ⟨hself, hunder⟩

example : topLevelEntry '/' ['/', 'w', '/'] ['/', 'w', '/', '/', 'a', '/', 'x'] = ['a'] := by decide

example : topLevelEntry '/' ['w'] ['/', 'o', 'u', 't', '/', 'w', '/', 'a'] = ['o', 'u', 't'] := by
  decide

end Harness.FsSearch
