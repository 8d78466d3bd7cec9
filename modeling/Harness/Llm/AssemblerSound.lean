import Harness.Foundation.Except
import Harness.Llm.Assembler

namespace Harness.Llm.BlockAssembler

open Harness.Foundation

theorem length_keepPositions {α β : Type} (kept : List Bool) {items : List α} {others : List β}
    (h : items.length = others.length) :
    (keepPositions kept items).length = (keepPositions kept others).length := by
  induction kept generalizing items others with
  | nil =>
    unfold keepPositions
    rw [List.zip_nil_right, List.zip_nil_right]
    rfl
  | cons keep kept ih =>
    cases items with
    | nil =>
      rw [List.length_nil, eq_comm, List.length_eq_zero_iff] at h
      rw [h]
      rfl
    | cons item items =>
      cases others with
      | nil => cases h
      | cons other others =>
        have hrest := ih (Nat.succ.inj h)
        unfold keepPositions at hrest ⊢
        rw [List.zip_cons_cons, List.zip_cons_cons]
        cases keep with
        | true => exact congrArg Nat.succ hrest
        | false => exact hrest

theorem keepPositions_map {α : Type} (keep : α → Bool) (items : List α) :
    keepPositions (items.map keep) items = items.filter keep := by
  unfold keepPositions
  induction items with
  | nil => rfl
  | cons item items ih =>
    rw [List.map_cons, List.zip_cons_cons, List.filter_cons, List.filter_cons]
    cases keep item with
    | true => exact congrArg _ ih
    | false => exact ih

theorem length_replayFor {assembler : BlockAssembler} {kept : Option (List Bool)}
    {all : List ContentBlock} {envelope : ReplayEnvelope} {entries : List Json}
    (h : assembler.replayFor kept all = some envelope) (hentries : envelope.blocks = some entries) :
    entries.length = (keptBlocks kept all).length := by
  unfold replayFor at h
  cases hreplay : assembler.replayEnvelope with
  | none =>
    rw [hreplay] at h
    cases h
  | some stored =>
    cases hstored : stored.blocks with
    | none =>
      simp only [hreplay, hstored, Option.some.injEq] at h
      rw [← h, hstored] at hentries
      cases hentries
    | some found =>
      simp only [hreplay, hstored] at h
      split at h
      · cases h
      · rename_i haligned
        rw [not_not] at haligned
        cases kept with
        | none =>
          cases h
          rw [hstored, Option.some.injEq] at hentries
          exact hentries ▸ haligned
        | some kept =>
          simp only at h
          split at h
          · rename_i hall
            cases h
            rw [hstored, Option.some.injEq] at hentries
            rw [← hentries, haligned, ← hall]
            rfl
          · cases h
            cases hentries
            exact length_keepPositions kept haligned

def keepFor (finish : FinishReason) (all : List ContentBlock) : List ContentBlock :=
  if finish = .maxTokens then all.filter fun block => blockType block != "tool-call" else all

theorem blocks_eq {assembler : BlockAssembler} {all : List ContentBlock}
    (h : assembler.allBlocks = .ok all) : assembler.blocks = .ok (keepFor assembler.finish all) := by
  have hkept : keptBlocks (assembler.keptPositions all) all = keepFor assembler.finish all := by
    unfold keptPositions keepFor
    split
    · exact keepPositions_map _ all
    · rfl
  rw [← hkept, blocks, assembled, h]
  rfl

theorem replay_aligned {assembler : BlockAssembler} {envelope : ReplayEnvelope}
    {entries : List Json} (hreplay : assembler.replayState = .ok (some envelope))
    (hentries : envelope.blocks = some entries) :
    ∃ blocks, assembler.blocks = .ok blocks ∧ entries.length = blocks.length := by
  obtain ⟨result, hresult, hstate⟩ := bind_eq_ok.mp hreplay
  refine ⟨result.blocks, by rw [blocks, hresult]; rfl, ?_⟩
  rw [pure_eq_ok, Except.ok.injEq] at hstate
  obtain ⟨all, -, hassembled⟩ := bind_eq_ok.mp hresult
  cases hassembled
  exact length_replayFor hstate hentries

end Harness.Llm.BlockAssembler
