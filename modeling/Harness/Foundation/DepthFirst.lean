import Mathlib.Logic.Relation
import Mathlib.Order.WellFounded
import Mathlib.Data.List.Perm.Subperm

universe u

namespace Harness.Foundation

section DepthFirst

variable {α : Type u}

def Edge (next : α → Option (List α)) (x y : α) : Prop :=
  ∃ successors, next x = some successors ∧ y ∈ successors

def Acyclic (next : α → Option (List α)) : Prop :=
  ∀ x, ¬ Relation.TransGen (Edge next) x x

variable [DecidableEq α]

def visit (next : α → Option (List α)) : Nat → List α → List α → α → Except α (List α)
  | 0, _, _, x => .error x
  | fuel + 1, visiting, visited, x =>
    if x ∈ visiting then .error x
    else if x ∈ visited then .ok visited
    else
      match next x with
      | none => .ok visited
      | some successors =>
        (successors.foldlM (visit next fuel (x :: visiting)) visited).map (x :: ·)

def visitAll (next : α → Option (List α)) (nodes : List α) : Except α (List α) :=
  nodes.foldlM (visit next (nodes.length + 1) []) []

inductive Downward (next : α → Option (List α)) : List α → Prop
  | nil : Downward next []
  | cons {x : α} {rest : List α} :
      (∀ y, Edge next x y → y ∈ rest ∨ next y = none) → Downward next rest →
        Downward next (x :: rest)

omit [DecidableEq α] in
theorem acc_of_unknown {next : α → Option (List α)} {x : α} (h : next x = none) :
    Acc (fun y x => Edge next x y) x := by
  apply Acc.intro
  rintro y ⟨successors, hnext, _⟩
  rw [h] at hnext
  cases hnext

omit [DecidableEq α] in
theorem Downward.acc {next : α → Option (List α)} {visited : List α}
    (h : Downward next visited) : ∀ x ∈ visited, Acc (fun y x => Edge next x y) x := by
  induction h with
  | nil =>
    intro x hx
    cases hx
  | cons hdown _ ih =>
    intro z hz
    rcases List.mem_cons.mp hz with rfl | hz
    · apply Acc.intro
      intro y hy
      rcases hdown y hy with hmem | hunknown
      · exact ih y hmem
      · exact acc_of_unknown hunknown
    · exact ih z hz

omit [DecidableEq α] in
theorem acyclic_of_acc {next : α → Option (List α)}
    (h : ∀ x, Acc (fun y x => Edge next x y) x) : Acyclic next := by
  intro x hx
  have hwf : WellFounded (fun y x => Edge next x y) := ⟨h⟩
  have hback : Relation.TransGen (fun y x => Edge next x y) x x :=
    Relation.transGen_swap.mp hx
  exact hwf.transGen.irrefl.irrefl x hback

structure Visited (next : α → Option (List α)) (before after : List α) (x : α) : Prop where
  downward : Downward next after
  before : before ⊆ after
  done : x ∈ after ∨ next x = none

omit [DecidableEq α] in
theorem foldlM_visited {next : α → Option (List α)} {f : List α → α → Except α (List α)}
    (hf : ∀ before x after, Downward next before → f before x = .ok after →
      Visited next before after x) {nodes before after : List α} (hbefore : Downward next before)
    (h : nodes.foldlM f before = .ok after) :
    Downward next after ∧ before ⊆ after ∧ ∀ x ∈ nodes, x ∈ after ∨ next x = none := by
  induction nodes generalizing before with
  | nil =>
    cases h
    exact ⟨hbefore, List.Subset.refl _, nofun⟩
  | cons x nodes ih =>
    rw [List.foldlM_cons] at h
    cases hx : f before x with
    | error y =>
      rw [hx] at h
      cases h
    | ok between =>
      rw [hx] at h
      obtain ⟨hdown, hsub, hdone⟩ := hf before x between hbefore hx
      obtain ⟨hafter, hsub', hall⟩ := ih hdown h
      refine ⟨hafter, List.Subset.trans hsub hsub', ?_⟩
      intro y hy
      rcases List.mem_cons.mp hy with rfl | hy
      · exact hdone.imp (fun hmem => hsub' hmem) fun hunknown => hunknown
      · exact hall y hy

theorem visit_visited {next : α → Option (List α)} (fuel : Nat) (visiting : List α) :
    ∀ before x after, Downward next before → visit next fuel visiting before x = .ok after →
      Visited next before after x := by
  induction fuel generalizing visiting with
  | zero =>
    intro before x after _ h
    cases h
  | succ fuel ih =>
    intro before x after hbefore h
    rw [visit] at h
    split at h
    · cases h
    · split at h
      · rename_i hmem
        cases h
        exact ⟨hbefore, List.Subset.refl _, .inl hmem⟩
      · split at h
        · rename_i hunknown
          cases h
          exact ⟨hbefore, List.Subset.refl _, .inr hunknown⟩
        · rename_i successors hnext
          cases hfold : successors.foldlM (visit next fuel (x :: visiting)) before with
          | error y =>
            rw [hfold] at h
            cases h
          | ok between =>
            rw [hfold] at h
            cases h
            obtain ⟨hdown, hsub, hall⟩ := foldlM_visited (ih (x :: visiting)) hbefore hfold
            refine ⟨.cons ?_ hdown, List.subset_cons_of_subset _ hsub, .inl List.mem_cons_self⟩
            rintro y ⟨found, hfound, hy⟩
            rw [hnext] at hfound
            cases hfound
            exact hall y hy

structure Path (next : α → Option (List α)) (nodes visiting : List α) (x : α) : Prop where
  nodup : visiting.Nodup
  known : visiting ⊆ nodes
  leads : ∀ v ∈ visiting, Relation.TransGen (Edge next) v x

theorem visit_ok {next : α → Option (List α)} {nodes : List α} (hacyclic : Acyclic next)
    (hnodes : ∀ x, next x ≠ none → x ∈ nodes) (fuel : Nat) (visiting visited : List α) (x : α)
    (hpath : Path next nodes visiting x) (hfuel : nodes.length + 1 ≤ fuel + visiting.length) :
    ∃ after, visit next fuel visiting visited x = .ok after := by
  induction fuel generalizing visiting visited x with
  | zero =>
    have hle := (hpath.nodup.subperm hpath.known).length_le
    omega
  | succ fuel ih =>
    rw [visit]
    split
    · rename_i hmem
      exact absurd (hpath.leads x hmem) (hacyclic x)
    · rename_i hfresh
      split
      · exact ⟨_, rfl⟩
      · split
        · exact ⟨_, rfl⟩
        · rename_i successors hnext
          have hstep : ∀ y ∈ successors, Path next nodes (x :: visiting) y := by
            intro y hy
            have hedge : Edge next x y := ⟨successors, hnext, hy⟩
            refine ⟨List.nodup_cons.mpr ⟨hfresh, hpath.nodup⟩, ?_, ?_⟩
            · intro z hz
              rcases List.mem_cons.mp hz with rfl | hz
              · exact hnodes z (by simp [hnext])
              · exact hpath.known hz
            · intro v hv
              rcases List.mem_cons.mp hv with rfl | hv
              · exact .single hedge
              · exact (hpath.leads v hv).tail hedge
          have hfold : ∀ (rest before : List α), (∀ y ∈ rest, y ∈ successors) →
              ∃ after, rest.foldlM (visit next fuel (x :: visiting)) before = .ok after := by
            intro rest
            induction rest with
            | nil =>
              intro before _
              exact ⟨before, rfl⟩
            | cons y rest ihrest =>
              intro before hsub
              obtain ⟨between, hbetween⟩ := ih (x :: visiting) before y
                (hstep y (hsub y List.mem_cons_self)) (by simp only [List.length_cons]; omega)
              obtain ⟨after, hafter⟩ := ihrest between fun z hz =>
                hsub z (List.mem_cons_of_mem _ hz)
              refine ⟨after, ?_⟩
              rw [List.foldlM_cons, hbetween]
              exact hafter
          obtain ⟨after, hafter⟩ := hfold successors visited fun _ hy => hy
          exact ⟨x :: after, by rw [hafter]; rfl⟩

theorem visitAll_ok_iff {next : α → Option (List α)} {nodes : List α}
    (hnodes : ∀ x, next x ≠ none → x ∈ nodes) :
    (∃ visited, visitAll next nodes = .ok visited) ↔ Acyclic next := by
  constructor
  · rintro ⟨visited, h⟩
    obtain ⟨hdown, _, hall⟩ := foldlM_visited (visit_visited _ []) Downward.nil h
    apply acyclic_of_acc
    intro x
    by_cases hx : next x = none
    · exact acc_of_unknown hx
    · rcases hall x (hnodes x hx) with hmem | hunknown
      · exact hdown.acc x hmem
      · exact acc_of_unknown hunknown
  · intro hacyclic
    have hfold : ∀ (rest before : List α),
        ∃ after, rest.foldlM (visit next (nodes.length + 1) []) before = .ok after := by
      intro rest
      induction rest with
      | nil =>
        intro before
        exact ⟨before, rfl⟩
      | cons y rest ih =>
        intro before
        obtain ⟨between, hbetween⟩ := visit_ok hacyclic hnodes (nodes.length + 1) [] before y
          ⟨List.nodup_nil, List.nil_subset _, nofun⟩ (by simp)
        obtain ⟨after, hafter⟩ := ih between
        refine ⟨after, ?_⟩
        rw [List.foldlM_cons, hbetween]
        exact hafter
    exact hfold nodes []

end DepthFirst

end Harness.Foundation
