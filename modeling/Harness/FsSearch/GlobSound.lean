import Harness.Foundation.RoundRobin
import Harness.FsSearch.TopLevel

namespace Harness.FsSearch

open Harness.Foundation

section Groups

variable (keyOf : Path → Path)

structure Grouped (paths : List Path) (groups : OrderedMap Path (List Path)) : Prop where
  keys : groups.keys = groupKeys keyOf paths
  get? : ∀ key ∈ groups.keys, groups.get? key = some (groupOf keyOf paths key)

variable {keyOf} {paths : List Path} {groups : OrderedMap Path (List Path)}

theorem Grouped.add (h : Grouped keyOf paths groups) (path : Path) :
    Grouped keyOf (paths ++ [path]) (addToGroup keyOf groups path) := by
  rw [addToGroup]
  by_cases hmem : keyOf path ∈ groups.keys
  · rw [h.get? _ hmem]
    constructor
    · rw [OrderedMap.keys_set_of_mem hmem, groupKeys_snoc, ← h.keys, if_pos hmem]
    · intro key hkey
      rw [OrderedMap.keys_set_of_mem hmem] at hkey
      rw [OrderedMap.get?_set, groupOf_snoc]
      by_cases heq : key = keyOf path
      · rw [if_pos heq, if_pos heq.symm, heq]
      · rw [if_neg heq, if_neg (Ne.symm heq)]
        exact h.get? key hkey
  · rw [OrderedMap.get?_eq_none_of_notMem hmem]
    constructor
    · rw [OrderedMap.keys_set_new hmem, groupKeys_snoc, ← h.keys, if_neg hmem]
    · intro key hkey
      rw [OrderedMap.keys_set_new hmem, List.mem_append, List.mem_singleton] at hkey
      rw [OrderedMap.get?_set, groupOf_snoc]
      by_cases heq : key = keyOf path
      · have hempty : groupOf keyOf paths key = [] := by
          rw [List.eq_nil_iff_forall_not_mem]
          intro other hother
          apply hmem
          rw [h.keys, ← heq]
          exact mem_groupKeys.mpr ⟨other, mem_groupOf.mp hother⟩
        rw [if_pos heq, if_pos heq.symm, hempty]
        rfl
      · rw [if_neg heq, if_neg (Ne.symm heq)]
        exact h.get? key (hkey.resolve_right heq)

variable (keyOf) in
theorem grouped_foldl (paths : List Path) :
    Grouped keyOf paths (paths.foldl (addToGroup keyOf) .empty) := by
  induction paths using List.reverseRecOn with
  | nil => exact ⟨rfl, nofun⟩
  | append_singleton paths path ih =>
    rw [List.foldl_append]
    exact ih.add path

end Groups

theorem values_eq {map : OrderedMap Path (List Path)} {value : Path → List Path}
    (h : ∀ key ∈ map.keys, map.get? key = some (value key)) :
    map.values = map.keys.map value := by
  rw [OrderedMap.values, OrderedMap.keys, List.map_map]
  apply List.map_congr_left
  intro entry hentry
  have hvalue := OrderedMap.mem_entries_iff.mp hentry
  rw [h entry.1 (OrderedMap.mem_keys_of_get? hvalue)] at hvalue
  exact (Option.some.inj hvalue).symm

section Rounds

variable {keys : List Path} {group : Path → List Path} {round maxItems : Nat}
  {front back : List Path} {sampling : Sampling}

structure Ready (group : Path → List Path) (round : Nat) (active : ActiveGroup) : Prop where
  items : active.items = group active.key
  index : active.index = round
  current : (group active.key)[round]? = some active.current

/-- The keys served so far have the heads of their groups that are their shares. -/
structure Sampled (keys : List Path) (group : Path → List Path) (round : Nat)
    (front back : List Path) (sampling : Sampling) : Prop where
  inRound : InRound keys (fun key => (group key).length) round front back
  reached : sampling.taken.keys = if round = 0 then front else keys
  taken : ∀ key ∈ sampling.taken.keys, sampling.taken.get? key =
    some ((group key).take (share (fun key => (group key).length) round front key))
  count : sampling.count = (keys.map (share (fun key => (group key).length) round front)).sum

theorem Sampled.begin (hgroups : ∀ key ∈ keys, 0 < (group key).length) :
    Sampled keys group 0 [] keys .start where
  inRound := by
    apply List.filter_eq_self.mpr
    intro key hkey
    exact decide_eq_true (hgroups key hkey)
  reached := rfl
  taken := nofun
  count := by
    have hzero : keys.map (share (fun key => (group key).length) 0 []) = keys.map fun _ => 0 := by
      apply List.map_congr_left
      intro key _
      exact Nat.min_eq_right (Nat.zero_le _)
    rw [hzero, List.map_const', List.sum_replicate]
    rfl

theorem Sampled.take (hkeys : keys.Nodup) {active : ActiveGroup}
    (h : Sampled keys group round front (active.key :: back) sampling)
    (hready : Ready group round active) :
    Sampled keys group round (front ++ [active.key]) back (sampling.take active) := by
  obtain ⟨hround, hfront, hsum⟩ := h.inRound.step hkeys
  obtain ⟨hkey, hsize⟩ := h.inRound.mem_back List.mem_cons_self
  have hshare : share (fun key => (group key).length) round front active.key = round := by
    rw [share, if_neg hfront]
    exact Nat.min_eq_right (Nat.le_of_lt hsize)
  have hnext : share (fun key => (group key).length) round (front ++ [active.key]) active.key =
      round + 1 := if_pos (List.mem_append_right _ (List.mem_singleton_self _))
  have hother : ∀ key, key ≠ active.key →
      share (fun key => (group key).length) round (front ++ [active.key]) key =
        share (fun key => (group key).length) round front key := by
    intro key hne
    simp only [share, List.mem_append, List.mem_singleton, hne, or_false]
  have hgrown : (group active.key).take round ++ [active.current] =
      (group active.key).take (round + 1) := by
    rw [List.take_add_one, hready.current]
    rfl
  by_cases hzero : round = 0
  · have habsent : active.key ∉ sampling.taken.keys := by
      rw [h.reached, if_pos hzero]
      exact hfront
    have htaken : (sampling.take active).taken =
        sampling.taken.set active.key [active.current] := by
      rw [Sampling.take, OrderedMap.get?_eq_none_of_notMem habsent]
    refine ⟨hround, ?_, ?_, ?_⟩
    · rw [htaken, OrderedMap.keys_set_new habsent, h.reached, if_pos hzero, if_pos hzero]
    · intro key hkey
      rw [htaken, OrderedMap.keys_set_new habsent, List.mem_append, List.mem_singleton] at hkey
      rw [htaken, OrderedMap.get?_set]
      by_cases heq : key = active.key
      · rw [if_pos heq, heq, hnext, ← hgrown, hzero]
        rfl
      · rw [if_neg heq, hother key heq]
        exact h.taken key (hkey.resolve_right heq)
    · rw [hsum, ← h.count]
      rfl
  · have hpresent : active.key ∈ sampling.taken.keys := by
      rw [h.reached, if_neg hzero]
      exact hkey
    have htaken : (sampling.take active).taken =
        sampling.taken.set active.key ((group active.key).take round ++ [active.current]) := by
      rw [Sampling.take, h.taken _ hpresent, hshare]
    refine ⟨hround, ?_, ?_, ?_⟩
    · rw [htaken, OrderedMap.keys_set_of_mem hpresent, h.reached, if_neg hzero, if_neg hzero]
    · intro key hkey
      rw [htaken, OrderedMap.keys_set_of_mem hpresent] at hkey
      rw [htaken, OrderedMap.get?_set]
      by_cases heq : key = active.key
      · rw [if_pos heq, heq, hnext, hgrown]
      · rw [if_neg heq, hother key heq]
        exact h.taken key hkey
    · rw [hsum, ← h.count]
      rfl

theorem Sampled.next (h : Sampled keys group round front [] sampling)
    (hgroups : ∀ key ∈ keys, 0 < (group key).length) :
    Sampled keys group (round + 1) []
      (keys.filter fun key => decide (round + 1 < (group key).length)) sampling where
  inRound := rfl
  reached := by
    rw [h.reached, if_neg (Nat.succ_ne_zero round)]
    split
    · next hzero =>
      have hall := h.inRound
      rw [InRound, List.append_nil, hzero, List.filter_eq_self.mpr] at hall
      · exact hall.symm
      · intro key hkey
        exact decide_eq_true (hgroups key hkey)
    · rfl
  taken := by
    intro key hkey
    have hmem : key ∈ keys := by
      rw [h.reached] at hkey
      split at hkey
      · exact (h.inRound.mem_front hkey).1
      · exact hkey
    rw [h.inRound.next hmem]
    exact h.taken key hkey
  count := by
    rw [h.count]
    exact sum_map_congr fun key hkey => (h.inRound.next hkey).symm

theorem Ready.next {active : ActiveGroup} (h : Ready group round active) :
    match active.next with
    | some next => next.key = active.key ∧ Ready group (round + 1) next
    | none => (group active.key).length ≤ round + 1 := by
  rw [ActiveGroup.next, h.items, h.index]
  cases hpath : (group active.key)[round + 1]? with
  | none => exact List.getElem?_eq_none_iff.mp hpath
  | some path => exact ⟨rfl, rfl, rfl, hpath⟩

theorem Sampled.ofRound (hkeys : keys.Nodup) {active : List ActiveGroup}
    (h : Sampled keys group round front (active.map ActiveGroup.key) sampling)
    (hready : ∀ group' ∈ active, Ready group round group') (hcount : sampling.count ≤ maxItems) :
    ∃ front' back', Sampled keys group round front' back'
        (Sampling.round maxItems active sampling).1 ∧
      (Sampling.round maxItems active sampling).1.count ≤ maxItems ∧
      ((Sampling.round maxItems active sampling).1.count = maxItems ∨
        back' = [] ∧ (Sampling.round maxItems active sampling).2.map ActiveGroup.key =
            (active.map ActiveGroup.key).filter
              (fun key => decide (round + 1 < (group key).length)) ∧
          ∀ next ∈ (Sampling.round maxItems active sampling).2, Ready group (round + 1) next) := by
  induction active generalizing front sampling with
  | nil => exact ⟨front, [], h, hcount, Or.inr ⟨rfl, rfl, nofun⟩⟩
  | cons first active ih =>
    rw [List.forall_mem_cons] at hready
    rw [Sampling.round]
    by_cases hfull : maxItems ≤ sampling.count
    · rw [if_pos hfull]
      exact ⟨front, _, h, hcount, Or.inl (Nat.le_antisymm hcount hfull)⟩
    · rw [if_neg hfull]
      obtain ⟨front', back', hsampled, hle, hend⟩ := ih (h.take hkeys hready.1) hready.2
        (Nat.lt_of_not_le hfull)
      refine ⟨front', back', hsampled, hle, ?_⟩
      rcases hend with hend | ⟨hback, hmap, hnext⟩
      · exact Or.inl hend
      · right
        have hfirst := hready.1.next
        cases hgroup : first.next with
        | none =>
          rw [hgroup] at hfirst
          refine ⟨hback, ?_, hnext⟩
          rw [List.map_cons, List.filter_cons_of_neg (by simpa using hfirst)]
          exact hmap
        | some next =>
          rw [hgroup] at hfirst
          refine ⟨hback, ?_, ?_⟩
          · have hsize : round + 1 < (group first.key).length := by
              have hcurrent := hfirst.2.current
              rw [hfirst.1] at hcurrent
              exact (List.getElem?_eq_some_iff.mp hcurrent).1
            rw [List.map_cons, List.filter_cons_of_pos (by simpa using hsize), ← hmap, ← hfirst.1]
            rfl
          · intro other hother
            rcases List.mem_cons.mp hother with rfl | hother
            · exact hfirst.2
            · exact hnext other hother

theorem Sampled.ofRounds (hkeys : keys.Nodup) (hgroups : ∀ key ∈ keys, 0 < (group key).length)
    {active : List ActiveGroup}
    (h : Sampled keys group round [] (active.map ActiveGroup.key) sampling)
    (hready : ∀ group' ∈ active, Ready group round group') (hcount : sampling.count ≤ maxItems) :
    ∃ round' front' back', Sampled keys group round' front' back'
        (Sampling.rounds maxItems active sampling) ∧
      (Sampling.rounds maxItems active sampling).count ≤ maxItems ∧
      ((Sampling.rounds maxItems active sampling).count = maxItems ∨
        front' = [] ∧ back' = []) := by
  induction active, sampling using Sampling.rounds.induct maxItems generalizing round with
  | case1 active sampling hopen hless ih =>
    rw [Sampling.rounds, dif_pos hopen]
    obtain ⟨front', back', hsampled, hle, hend⟩ := h.ofRound hkeys hready hcount
    rcases hend with hfull | ⟨rfl, hmap, hnext⟩
    · rw [Sampling.rounds, dif_neg]
      · exact ⟨round, front', back', hsampled, hle, Or.inl hfull⟩
      · intro hopen
        exact absurd hfull (Nat.ne_of_lt hopen.2)
    · apply ih _ hnext hle
      have hactive : active.map ActiveGroup.key =
          keys.filter fun key => decide (round < (group key).length) := h.inRound.symm
      rw [hmap, hactive, List.filter_filter]
      have hfilter : (keys.filter fun key => decide (round + 1 < (group key).length) &&
          decide (round < (group key).length)) =
          keys.filter fun key => decide (round + 1 < (group key).length) := by
        apply List.filter_congr
        intro key _
        by_cases hsize : round + 1 < (group key).length
        · rw [decide_eq_true hsize, decide_eq_true (Nat.lt_of_succ_lt hsize)]
          rfl
        · rw [decide_eq_false hsize]
          rfl
      rw [hfilter]
      exact hsampled.next hgroups
  | case2 active sampling hclosed =>
    rw [Sampling.rounds, dif_neg hclosed]
    refine ⟨round, [], active.map ActiveGroup.key, h, hcount, ?_⟩
    rcases Nat.lt_or_eq_of_le hcount with hlt | heq
    · right
      have hempty : active = [] := by
        by_contra hne
        exact hclosed ⟨hne, hlt⟩
      rw [hempty]
      exact ⟨rfl, rfl⟩
    · exact Or.inl heq

theorem Sampled.first_round (h : Sampled keys group 0 front back sampling)
    (hgroups : ∀ key ∈ keys, 0 < (group key).length) : keys = front ++ back := by
  have hall := h.inRound
  rw [InRound, List.filter_eq_self.mpr] at hall
  · exact hall
  · intro key hkey
    exact decide_eq_true (hgroups key hkey)

theorem Sampled.mem_reached (h : Sampled keys group round front back sampling)
    (hgroups : ∀ key ∈ keys, 0 < (group key).length) (key : Path) :
    key ∈ sampling.taken.keys ↔
      key ∈ keys ∧ 0 < share (fun key => (group key).length) round front key := by
  rw [h.reached, share]
  by_cases hzero : round = 0
  · rw [if_pos hzero]
    constructor
    · intro hfront
      rw [if_pos hfront]
      exact ⟨(h.inRound.mem_front hfront).1, Nat.succ_pos round⟩
    · rintro ⟨-, hpos⟩
      by_contra hfront
      rw [if_neg hfront, hzero, Nat.min_zero] at hpos
      exact absurd hpos (Nat.lt_irrefl 0)
  · rw [if_neg hzero]
    refine (and_iff_left_of_imp ?_).symm
    intro hkey
    have hsize := hgroups key hkey
    split <;> omega

theorem Sampled.items (h : Sampled keys group round front back sampling) (hkeys : keys.Nodup)
    (hgroups : ∀ key ∈ keys, 0 < (group key).length) :
    sampling.taken.values.flatten = keys.flatMap fun key =>
      (group key).take (share (fun key => (group key).length) round front key) := by
  rw [values_eq h.taken, h.reached, ← List.flatMap_def]
  split
  · next hzero =>
    subst hzero
    have hsplit := h.first_round hgroups
    have hback : (back.flatMap fun key =>
        (group key).take (share (fun key => (group key).length) 0 front key)) = [] := by
      rw [List.flatMap_eq_nil_iff]
      intro key hkey
      have hfront : key ∉ front := fun hmem =>
        (List.nodup_append.mp (hsplit ▸ hkeys)).2.2 key hmem key hkey rfl
      rw [share, if_neg hfront, Nat.min_zero, List.take_zero]
    rw [hsplit, List.flatMap_append, hback, List.append_nil]
  · rfl

end Rounds

structure FairSample (keyOf : Path → Path) (paths : List Path) (maxItems : Nat)
    (page : GlobSample) (taken : Path → Nat) : Prop where
  items : page.items = (groupKeys keyOf paths).flatMap fun key =>
    (groupOf keyOf paths key).take (taken key)
  taken_le : ∀ key, taken key ≤ (groupOf keyOf paths key).length
  length : page.items.length = maxItems
  nodup : page.items.Nodup
  subset : page.items ⊆ paths
  balanced : ∀ key other, taken key + 1 < taken other →
    taken key = (groupOf keyOf paths key).length
  turns : (groupKeys keyOf paths).Pairwise fun earlier later =>
    taken earlier < taken later → taken earlier = (groupOf keyOf paths earlier).length
  shown : page.shown = (groupKeys keyOf page.items).length
  total : page.total = (groupKeys keyOf paths).length
  head : (paths.map keyOf).Nodup ∨ (∀ first ∈ paths, ∀ second ∈ paths,
    keyOf first = keyOf second) → page.items = paths.take maxItems

section Page

variable {keyOf : Path → Path} {paths : List Path} {taken : Path → Nat}

variable (keyOf paths) in
theorem sum_taken (htaken : ∀ key, taken key ≤ (groupOf keyOf paths key).length) :
    ((groupKeys keyOf paths).flatMap fun key =>
      (groupOf keyOf paths key).take (taken key)).length =
        ((groupKeys keyOf paths).map taken).sum := by
  rw [List.length_flatMap]
  apply sum_map_congr
  intro key _
  exact List.length_take_of_le (htaken key)

theorem nodup_taken (hpaths : paths.Nodup) :
    ((groupKeys keyOf paths).flatMap fun key =>
      (groupOf keyOf paths key).take (taken key)).Nodup := by
  rw [List.nodup_flatMap]
  constructor
  · intro key _
    exact (hpaths.filter _).sublist (List.take_sublist _ _)
  · apply (nodup_groupKeys paths).imp
    intro key other hne path hkey hother
    apply hne
    rw [← (mem_groupOf.mp (List.mem_of_mem_take hkey)).2,
      ← (mem_groupOf.mp (List.mem_of_mem_take hother)).2]

theorem subset_taken : ((groupKeys keyOf paths).flatMap fun key =>
    (groupOf keyOf paths key).take (taken key)) ⊆ paths := by
  intro path hpath
  obtain ⟨key, -, hpath⟩ := List.mem_flatMap.mp hpath
  exact (mem_groupOf.mp (List.mem_of_mem_take hpath)).1

theorem mem_groupKeys_taken (htaken : ∀ key, taken key ≤ (groupOf keyOf paths key).length)
    (key : Path) :
    key ∈ groupKeys keyOf ((groupKeys keyOf paths).flatMap fun key =>
      (groupOf keyOf paths key).take (taken key)) ↔
        key ∈ groupKeys keyOf paths ∧ 0 < taken key := by
  rw [mem_groupKeys]
  constructor
  · rintro ⟨path, hpath, rfl⟩
    obtain ⟨key, hkey, hpath⟩ := List.mem_flatMap.mp hpath
    obtain rfl := (mem_groupOf.mp (List.mem_of_mem_take hpath)).2
    exact ⟨hkey, Nat.pos_of_ne_zero fun hzero => by simp [hzero] at hpath⟩
  · rintro ⟨hkey, hpos⟩
    have hlength : 0 < ((groupOf keyOf paths key).take (taken key)).length := by
      rw [List.length_take_of_le (htaken key)]
      exact hpos
    obtain ⟨path, hpath⟩ := List.exists_mem_of_length_pos hlength
    exact ⟨path, List.mem_flatMap.mpr ⟨key, hkey, hpath⟩,
      (mem_groupOf.mp (List.mem_of_mem_take hpath)).2⟩

theorem head_of_ones {items : List Path} (ones : Path → Nat) (hone : ∀ item ∈ items, ones item ≤ 1)
    (hturns : items.Pairwise fun earlier later => ones earlier < ones later → ones earlier = 1) :
    (items.flatMap fun item => [item].take (ones item)) <+: items := by
  induction items with
  | nil => exact List.nil_prefix
  | cons first items ih =>
    rw [List.pairwise_cons] at hturns
    rw [List.forall_mem_cons] at hone
    rw [List.flatMap_cons]
    rcases Nat.le_one_iff_eq_zero_or_eq_one.mp hone.1 with hzero | hsome
    · have hrest : (items.flatMap fun item => [item].take (ones item)) = [] := by
        rw [List.flatMap_eq_nil_iff]
        intro item hitem
        have hnone : ones item = 0 := by
          by_contra hne
          have hless := hturns.1 item hitem (by omega)
          omega
        rw [hnone]
        rfl
      rw [hzero, hrest]
      exact List.nil_prefix
    · rw [hsome]
      exact List.prefix_cons_inj first |>.mpr (ih hone.2 hturns.2)

theorem groupKeys_of_distinct (hdistinct : (paths.map keyOf).Nodup) :
    groupKeys keyOf paths = paths.map keyOf := by
  induction paths using List.reverseRecOn with
  | nil => rfl
  | append_singleton paths path ih =>
    rw [List.map_append, List.nodup_append] at hdistinct
    rw [groupKeys_snoc, ih hdistinct.1, if_neg, List.map_append]
    · rfl
    · intro hmem
      exact hdistinct.2.2 _ hmem _ (List.mem_singleton_self _) rfl

theorem groupOf_of_distinct (hdistinct : (paths.map keyOf).Nodup) {path : Path}
    (hpath : path ∈ paths) : groupOf keyOf paths (keyOf path) = [path] := by
  induction paths with
  | nil => cases hpath
  | cons first paths ih =>
    rw [List.map_cons, List.nodup_cons] at hdistinct
    rw [groupOf]
    rcases List.mem_cons.mp hpath with rfl | hpath
    · have hrest : groupOf keyOf paths (keyOf path) = [] := by
        rw [List.eq_nil_iff_forall_not_mem]
        intro other hother
        obtain ⟨hmem, hkey⟩ := mem_groupOf.mp hother
        exact hdistinct.1 (hkey ▸ List.mem_map_of_mem hmem)
      rw [List.filter_cons_of_pos (by simp)]
      exact congrArg _ hrest
    · rw [List.filter_cons_of_neg]
      · exact ih hdistinct.2 hpath
      · rw [decide_eq_true_eq]
        intro hkey
        exact hdistinct.1 (hkey ▸ List.mem_map_of_mem hpath)

theorem head_of_distinct (hdistinct : (paths.map keyOf).Nodup)
    (htaken : ∀ key, taken key ≤ (groupOf keyOf paths key).length)
    (hturns : (groupKeys keyOf paths).Pairwise fun earlier later =>
      taken earlier < taken later → taken earlier = (groupOf keyOf paths earlier).length) :
    ((groupKeys keyOf paths).flatMap fun key => (groupOf keyOf paths key).take (taken key)) <+:
      paths := by
  have hgroup : ∀ path ∈ paths, groupOf keyOf paths (keyOf path) = [path] :=
    fun path hpath => groupOf_of_distinct hdistinct hpath
  rw [groupKeys_of_distinct hdistinct, List.pairwise_map] at hturns
  have hsame : (paths.flatMap fun path =>
      (groupOf keyOf paths (keyOf path)).take (taken (keyOf path))) =
      paths.flatMap fun path => [path].take (taken (keyOf path)) := by
    rw [List.flatMap_def, List.flatMap_def]
    congr 1
    apply List.map_congr_left
    intro path hpath
    rw [hgroup path hpath]
  rw [groupKeys_of_distinct hdistinct, List.flatMap_map, hsame]
  apply head_of_ones fun path => taken (keyOf path)
  · intro path hpath
    have hle := htaken (keyOf path)
    rw [hgroup path hpath] at hle
    exact hle
  · apply hturns.imp_of_mem
    intro earlier later hearlier _ hturn hless
    have heq := hturn hless
    rw [hgroup earlier hearlier] at heq
    exact heq

theorem head_of_shared (hpaths : paths ≠ [])
    (hshared : ∀ first ∈ paths, ∀ second ∈ paths, keyOf first = keyOf second) :
    ((groupKeys keyOf paths).flatMap fun key => (groupOf keyOf paths key).take (taken key)) <+:
      paths := by
  obtain ⟨first, hfirst⟩ := List.exists_mem_of_ne_nil paths hpaths
  have hgroup : groupOf keyOf paths (keyOf first) = paths := by
    apply List.filter_eq_self.mpr
    intro path hpath
    exact decide_eq_true (hshared path hpath first hfirst)
  have hkeys : groupKeys keyOf paths = [keyOf first] := by
    apply List.perm_singleton.mp
    rw [List.perm_ext_iff_of_nodup (nodup_groupKeys paths) (List.nodup_singleton _)]
    intro key
    rw [mem_groupKeys, List.mem_singleton]
    constructor
    · rintro ⟨path, hpath, rfl⟩
      exact hshared path hpath first hfirst
    · rintro rfl
      exact ⟨first, hfirst, rfl⟩
  rw [hkeys, List.flatMap_singleton, hgroup]
  exact List.take_prefix _ _

end Page

theorem ready_activeGroups {groups : OrderedMap Path (List Path)} {group : Path → List Path}
    (hgroups : ∀ key ∈ groups.keys, groups.get? key = some (group key))
    (hpos : ∀ key ∈ groups.keys, 0 < (group key).length) :
    (activeGroups groups).map ActiveGroup.key = groups.keys ∧
      ∀ active ∈ activeGroups groups, Ready group 0 active := by
  have hentries : ∀ entry ∈ groups.entries, entry.2 = group entry.1 ∧ 0 < entry.2.length := by
    intro entry hentry
    have hvalue := OrderedMap.mem_entries_iff.mp hentry
    have hkey := OrderedMap.mem_keys_of_get? hvalue
    rw [hgroups entry.1 hkey, Option.some.injEq] at hvalue
    exact ⟨hvalue.symm, hvalue ▸ hpos entry.1 hkey⟩
  rw [activeGroups, OrderedMap.keys]
  clear hgroups hpos
  generalize groups.entries = entries at hentries
  induction entries with
  | nil => exact ⟨rfl, nofun⟩
  | cons entry entries ih =>
    rw [List.forall_mem_cons] at hentries
    obtain ⟨⟨hgroup, hlength⟩, hrest⟩ := hentries
    obtain ⟨path, rest, hcons⟩ := List.exists_cons_of_length_pos hlength
    have hhead : firstTurn entry = some ⟨entry.1, entry.2, 0, path⟩ := by
      rw [firstTurn, hcons]
      rfl
    rw [List.filterMap_cons_some hhead, List.map_cons, List.map_cons, (ih hrest).1]
    refine ⟨rfl, ?_⟩
    rw [List.forall_mem_cons]
    refine ⟨⟨hgroup, rfl, ?_⟩, (ih hrest).2⟩
    rw [← hgroup, hcons]
    rfl

theorem sampleAcrossTopLevel_eq (sep : Char) (paths : List Path) (maxItems : Nat) (root : Path) :
    sampleAcrossTopLevel sep paths maxItems root =
      let groups := paths.foldl (addToGroup (topLevelEntry sep root)) .empty
      let sampling := Sampling.rounds maxItems (activeGroups groups) .start
      ⟨sampling.taken.values.flatten, sampling.taken.size, groups.size⟩ := by
  have hkeys : (fun path => topLevelSegment sep (relativeToSearchRoot sep path root)) =
      topLevelEntry sep root := funext fun path => topLevelSegment_relativeToSearchRoot root path
  rw [← hkeys]
  rfl

theorem sampleAcrossTopLevel_fair (sep : Char) (root : Path) {paths : List Path} {maxItems : Nat}
    (hpaths : paths.Nodup) (hcap : maxItems < paths.length) :
    ∃ taken, FairSample (topLevelEntry sep root) paths maxItems
      (sampleAcrossTopLevel sep paths maxItems root) taken := by
  have hpage := sampleAcrossTopLevel_eq sep paths maxItems root
  have hgrouped := grouped_foldl (topLevelEntry sep root) paths
  have hkeys := hgrouped.keys ▸ nodup_groupKeys paths
  have hpos : ∀ key ∈ (paths.foldl (addToGroup (topLevelEntry sep root)) .empty).keys,
      0 < (groupOf (topLevelEntry sep root) paths key).length := by
    intro key hkey
    exact groupOf_pos (hgrouped.keys ▸ hkey)
  obtain ⟨hactive, hready⟩ := ready_activeGroups hgrouped.get? hpos
  have hstart : Sampled (paths.foldl (addToGroup (topLevelEntry sep root)) .empty).keys
      (groupOf (topLevelEntry sep root) paths) 0 []
      ((activeGroups (paths.foldl (addToGroup (topLevelEntry sep root)) .empty)).map
        ActiveGroup.key) .start := by
    rw [hactive]
    exact Sampled.begin hpos
  obtain ⟨round, front, back, hsampled, hle, hend⟩ :=
    hstart.ofRounds hkeys hpos hready (Nat.zero_le maxItems)
  rw [hgrouped.keys] at hsampled
  have hcount : (Sampling.rounds maxItems
      (activeGroups (paths.foldl (addToGroup (topLevelEntry sep root)) .empty)) .start).count =
        maxItems := by
    rcases hend with hfull | ⟨rfl, rfl⟩
    · exact hfull
    · have hall := hsampled.count
      rw [sum_map_congr fun key hkey => hsampled.inRound.done hkey, sum_groups] at hall
      omega
  have hgroups : ∀ key ∈ groupKeys (topLevelEntry sep root) paths,
      0 < (groupOf (topLevelEntry sep root) paths key).length := fun key hkey => groupOf_pos hkey
  have hitems : (sampleAcrossTopLevel sep paths maxItems root).items = _ :=
    (congrArg GlobSample.items hpage).trans (hsampled.items (nodup_groupKeys paths) hgroups)
  have htaken := hsampled.inRound.share_le
  have hlength := sum_taken (topLevelEntry sep root) paths htaken
  rw [← hsampled.count, hcount, ← hitems] at hlength
  have hturns := hsampled.inRound.turns (nodup_groupKeys paths)
  refine ⟨share (fun key => (groupOf (topLevelEntry sep root) paths key).length) round front,
    hitems, htaken, hlength, ?_, ?_, fun key other => share_fair, hturns, ?_, ?_, ?_⟩
  · rw [hitems]
    exact nodup_taken hpaths
  · rw [hitems]
    exact subset_taken
  · have hperm : (Sampling.rounds maxItems (activeGroups
        (paths.foldl (addToGroup (topLevelEntry sep root)) .empty)) .start).taken.keys.Perm
          (groupKeys (topLevelEntry sep root) (sampleAcrossTopLevel sep paths maxItems root).items) := by
      apply (List.perm_ext_iff_of_nodup (OrderedMap.nodup _) (nodup_groupKeys _)).mpr
      intro key
      rw [hitems, mem_groupKeys_taken htaken]
      exact hsampled.mem_reached hgroups key
    rw [← hperm.length_eq, OrderedMap.keys, List.length_map]
    exact congrArg GlobSample.shown hpage
  · rw [← hgrouped.keys, OrderedMap.keys, List.length_map]
    exact congrArg GlobSample.total hpage
  · intro hflat
    have hhead : (sampleAcrossTopLevel sep paths maxItems root).items <+: paths := by
      rw [hitems]
      rcases hflat with hdistinct | hshared
      · exact head_of_distinct hdistinct htaken hturns
      · exact head_of_shared (List.ne_nil_of_length_pos (Nat.zero_lt_of_lt hcap)) hshared
    have htake := List.prefix_iff_eq_take.mp hhead
    rw [hlength] at htake
    exact htake

theorem sampleAcrossTopLevel_fair_two :
    ∃ taken, FairSample (topLevelEntry '/' ['w', '/'])
      [['w', '/', 'a', '/', 'x'], ['w', '/', 'a', '/', 'y'], ['w', '/', 'b']] 2
      (sampleAcrossTopLevel '/'
        [['w', '/', 'a', '/', 'x'], ['w', '/', 'a', '/', 'y'], ['w', '/', 'b']] 2 ['w', '/']) taken :=
  sampleAcrossTopLevel_fair '/' ['w', '/'] (by decide) (by decide)

end Harness.FsSearch
