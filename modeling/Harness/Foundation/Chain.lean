import Mathlib.Data.List.Perm.Subperm
import Mathlib.Logic.Relation

universe u

namespace Harness.Foundation

section Chain

variable {α : Type u} {next other : α → Option α}

inductive Chain (next : α → Option α) : α → List α → Prop
  | last {x : α} : next x = none → Chain next x [x]
  | link {x y : α} {rest : List α} : next x = some y → Chain next y rest → Chain next x (x :: rest)

def chain (next : α → Option α) : Nat → α → Option (List α)
  | 0, _ => none
  | fuel + 1, x =>
    match next x with
    | none => some [x]
    | some y => (chain next fuel y).map (x :: ·)

def Ends (next : α → Option α) : Prop :=
  ∀ x, ∃ nodes, Chain next x nodes

theorem Chain.unique {x : α} {nodes nodes' : List α} (h : Chain next x nodes)
    (h' : Chain next x nodes') : nodes = nodes' := by
  induction h generalizing nodes' with
  | last hnone =>
    cases h' with
    | last => rfl
    | link hsome _ =>
      rw [hnone] at hsome
      cases hsome
  | link hsome _ ih =>
    cases h' with
    | last hnone =>
      rw [hnone] at hsome
      cases hsome
    | link hsome' hrest =>
      rw [hsome] at hsome'
      cases hsome'
      rw [ih hrest]

theorem chain_sound {fuel : Nat} {x : α} {nodes : List α} (h : chain next fuel x = some nodes) :
    Chain next x nodes := by
  induction fuel generalizing x nodes with
  | zero => cases h
  | succ fuel ih =>
    rw [chain] at h
    split at h
    · cases h
      exact .last ‹_›
    · obtain ⟨rest, hrest, rfl⟩ := Option.map_eq_some_iff.mp h
      exact .link ‹_› (ih hrest)

theorem Chain.chain_eq {fuel : Nat} {x : α} {nodes : List α} (h : Chain next x nodes)
    (hfuel : nodes.length ≤ fuel) : chain next fuel x = some nodes := by
  induction h generalizing fuel with
  | last hnone =>
    cases fuel with
    | zero => cases hfuel
    | succ fuel => rw [chain, hnone]
  | link hsome _ ih =>
    cases fuel with
    | zero => cases hfuel
    | succ fuel =>
      rw [chain, hsome]
      exact congrArg (Option.map _) (ih (Nat.le_of_succ_le_succ hfuel))

theorem Chain.suffix {x y : α} {nodes : List α} (h : Chain next x nodes) (hmem : y ∈ nodes) :
    ∃ rest, Chain next y rest ∧ rest <:+ nodes := by
  induction h with
  | last hnone =>
    cases List.mem_singleton.mp hmem
    exact ⟨_, .last hnone, List.suffix_rfl⟩
  | link hsome hrest ih =>
    rcases List.mem_cons.mp hmem with rfl | hmem
    · exact ⟨_, .link hsome hrest, List.suffix_rfl⟩
    · obtain ⟨rest, hchain, hsuffix⟩ := ih hmem
      exact ⟨rest, hchain, hsuffix.trans (List.suffix_cons _ _)⟩

theorem Chain.nodup {x : α} {nodes : List α} (h : Chain next x nodes) : nodes.Nodup := by
  induction h with
  | last => exact List.nodup_cons.mpr ⟨List.not_mem_nil, List.nodup_nil⟩
  | link hsome hrest ih =>
    apply List.nodup_cons.mpr
    refine ⟨fun hmem => ?_, ih⟩
    obtain ⟨again, hagain, hsuffix⟩ := hrest.suffix hmem
    have hlength := hsuffix.length_le
    rw [hagain.unique (.link hsome hrest)] at hlength
    exact absurd hlength (Nat.not_succ_le_self _)

theorem Chain.length_le {linked : List α} (hlinked : ∀ x, next x ≠ none → x ∈ linked) {x : α}
    {nodes : List α} (h : Chain next x nodes) : nodes.length ≤ linked.length + 1 := by
  have hinit : ∀ y ∈ nodes.dropLast, y ∈ linked := by
    induction h with
    | last => exact fun _ hmem => absurd hmem List.not_mem_nil
    | link hsome hrest ih =>
      intro y hmem
      rw [List.dropLast_cons_of_ne_nil (by cases hrest <;> nofun)] at hmem
      rcases List.mem_cons.mp hmem with rfl | hmem
      · exact hlinked _ (by rw [hsome]; nofun)
      · exact ih y hmem
  have hnodup : nodes.dropLast.Nodup := h.nodup.sublist (List.dropLast_sublist _)
  have hlength := (hnodup.subperm hinit).length_le
  rw [List.length_dropLast] at hlength
  exact Nat.le_add_of_sub_le hlength

theorem Ends.relink (h : Ends next) {x y : α} {nodes : List α} (hy : Chain next y nodes)
    (hmem : x ∉ nodes) (hx : other x = some y) (hsame : ∀ z, z ≠ x → other z = next z) :
    Ends other := by
  have hkept : ∀ {z rest}, Chain next z rest → x ∉ rest → Chain other z rest := by
    intro z rest hchain hrest
    induction hchain with
    | last hnone => exact .last ((hsame _ fun heq => hrest (heq ▸ List.mem_cons_self)).trans hnone)
    | link hsome _ ih =>
      exact .link ((hsame _ fun heq => hrest (heq ▸ List.mem_cons_self)).trans hsome)
        (ih fun hmem => hrest (List.mem_cons_of_mem _ hmem))
  have hend : Chain other x (x :: nodes) := .link hx (hkept hy hmem)
  intro z
  obtain ⟨rest, hchain⟩ := h z
  induction hchain with
  | @last z hnone =>
    by_cases heq : z = x
    · exact heq ▸ ⟨_, hend⟩
    · exact ⟨_, .last ((hsame z heq).trans hnone)⟩
  | @link z _ _ hsome _ ih =>
    by_cases heq : z = x
    · exact heq ▸ ⟨_, hend⟩
    · obtain ⟨rest, hrest⟩ := ih
      exact ⟨_, .link ((hsame z heq).trans hsome) hrest⟩

theorem Ends.acyclic (h : Ends next) (x : α) :
    ¬ Relation.TransGen (fun x y => next x = some y) x x := by
  have hmem : ∀ {x y nodes}, Relation.TransGen (fun x y => next x = some y) x y →
      Chain next x nodes → y ∈ nodes.tail := by
    intro x y nodes hpath
    induction hpath using Relation.TransGen.head_induction_on generalizing nodes with
    | single hlink =>
      intro hchain
      cases hchain with
      | last hnone =>
        rw [hnone] at hlink
        cases hlink
      | link hsome hrest =>
        rw [hsome] at hlink
        cases hlink
        cases hrest <;> exact List.mem_cons_self
    | head hlink _ ih =>
      intro hchain
      cases hchain with
      | last hnone =>
        rw [hnone] at hlink
        cases hlink
      | link hsome hrest =>
        rw [hsome] at hlink
        cases hlink
        exact List.mem_of_mem_tail (ih hrest)
  intro hcycle
  obtain ⟨nodes, hchain⟩ := h x
  have hback := hmem hcycle hchain
  have hnodup := hchain.nodup
  cases hchain with
  | last => cases hback
  | link => exact (List.nodup_cons.mp hnodup).1 hback

end Chain

end Harness.Foundation
