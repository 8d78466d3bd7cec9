import Harness.Foundation.Utf8

namespace Harness.Foundation

def frame (lines : List Bytes) : Bytes := lines.flatMap fun line => line ++ [newline]

@[simp] theorem frame_nil : frame [] = [] := rfl

@[simp] theorem frame_cons (line : Bytes) (lines : List Bytes) :
    frame (line :: lines) = line ++ newline :: frame lines := by
  simp [frame]

theorem frame_append (front back : List Bytes) : frame (front ++ back) = frame front ++ frame back :=
  List.flatMap_append

/-- A truncated file keeps whole lines and then a piece of the next line, without its newline. -/
theorem take_frame {lines : List Bytes} (h : ∀ line ∈ lines, newline ∉ line) (n : Nat) :
    ∃ k torn, k ≤ lines.length ∧ (frame lines).take n = frame (lines.take k) ++ torn ∧
      newline ∉ torn ∧ (frame (lines.take k)).length ≤ n ∧
        (k = lines.length ∨ n < (frame (lines.take (k + 1))).length) := by
  induction lines generalizing n with
  | nil => exact ⟨0, [], Nat.le_refl 0, by simp, by simp, by simp, .inl rfl⟩
  | cons line lines ih =>
    by_cases hn : n ≤ line.length
    · refine ⟨0, line.take n, Nat.zero_le _, ?_, ?_, Nat.zero_le _, .inr ?_⟩
      · rw [frame_cons, List.take_append_of_le_length hn]
        rfl
      · exact fun hmem => h line List.mem_cons_self (List.mem_of_mem_take hmem)
      · simp only [Nat.zero_add, List.take_succ_cons, List.take_zero, frame_cons, frame_nil,
          List.length_append, List.length_singleton]
        omega
    · obtain ⟨k, torn, hk, htake, htorn, hle, hlast⟩ :=
        ih (fun other hother => h other (List.mem_cons_of_mem _ hother)) (n - (line.length + 1))
      have hsplit : (frame (line :: lines)).take n =
          (line ++ [newline]) ++ (frame lines).take (n - (line.length + 1)) := by
        have hframe : frame (line :: lines) = (line ++ [newline]) ++ frame lines := by simp
        rw [hframe, List.take_append, List.take_of_length_le (by simp; omega)]
        simp
      refine ⟨k + 1, torn, Nat.succ_le_succ hk, ?_, htorn, ?_, ?_⟩
      · rw [hsplit, htake]
        simp
      · rw [List.take_succ_cons, frame_cons, List.length_append, List.length_cons]
        omega
      · refine hlast.imp (congrArg Nat.succ) fun hlt => ?_
        rw [List.take_succ_cons, frame_cons, List.length_append, List.length_cons]
        omega

theorem encode_joined {texts : List String} (h : texts ≠ []) :
    Utf8.encode ("\n".intercalate texts ++ "\n") = frame (texts.map Utf8.encode) := by
  have hnewline : Utf8.encode "\n" = [newline] := by decide
  induction texts with
  | nil => exact absurd rfl h
  | cons text texts ih =>
    cases texts with
    | nil =>
      rw [String.intercalate_singleton, Utf8.encode_append, hnewline]
      simp
    | cons next texts =>
      rw [String.intercalate_cons_cons, String.append_assoc, String.append_assoc,
        Utf8.encode_append, Utf8.encode_append, hnewline, ih (by simp)]
      simp

end Harness.Foundation
