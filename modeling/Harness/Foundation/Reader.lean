import Harness.Foundation.Utf8

namespace Harness.Foundation

structure Cursor where
  offset : Nat
  rest : Bytes

inductive Reading (ε α : Type)
  | done (value : α) (next : Cursor)
  | torn
  | failed (error : ε)

def Reader (ε α : Type) : Type := Cursor → Reading ε α

namespace Reader

variable {ε α β : Type}

def bind (p : Reader ε α) (q : α → Reader ε β) : Reader ε β := fun cursor =>
  match p cursor with
  | .done a next => q a next
  | .torn => .torn
  | .failed e => .failed e

instance : Monad (Reader ε) where
  pure a := fun cursor => .done a cursor
  bind := bind

def offset : Reader ε Nat := fun cursor => .done cursor.offset cursor

def take (count : Nat) : Reader ε Bytes := fun cursor =>
  if cursor.rest.length < count then .torn
  else .done (cursor.rest.take count) ⟨cursor.offset + count, cursor.rest.drop count⟩

def require (condition : Bool) (error : ε) : Reader ε Unit := fun cursor =>
  if condition then .done () cursor else .failed error

def Advances (p : Reader ε α) : Prop :=
  ∀ cursor a next, p cursor = .done a next →
    ∃ used, cursor.rest = used ++ next.rest ∧ next.offset = cursor.offset + used.length

def Progresses (p : Reader ε α) : Prop :=
  ∀ cursor a next, p cursor = .done a next → next.rest.length < cursor.rest.length

def repeatUntil (p : Reader ε Bool) (h : Progresses p) (cursor : Cursor) : Reading ε Unit :=
  match hread : p cursor with
  | .done true next => .done () next
  | .done false next => repeatUntil p h next
  | .torn => .torn
  | .failed e => .failed e
termination_by cursor.rest.length
decreasing_by exact h cursor false next hread

/-- A reader that reads exactly some bytes from an offset on, whatever stands behind them, and
misses something wherever they are cut. -/
structure Reads (p : Reader ε α) (offset : Nat) (bytes : Bytes) (a : α) : Prop where
  whole : ∀ tail, p ⟨offset, bytes ++ tail⟩ = .done a ⟨offset + bytes.length, tail⟩
  cut : ∀ size, size < bytes.length → p ⟨offset, bytes.take size⟩ = .torn

section Rules

variable {p : Reader ε α} {q : α → Reader ε β} {a : α} {b : β} {bytes more : Bytes}

theorem bind_apply (p : Reader ε α) (q : α → Reader ε β) (cursor : Cursor) :
    (p >>= q) cursor = match p cursor with
      | .done a next => q a next
      | .torn => .torn
      | .failed e => .failed e := rfl

theorem bind_eq_done {cursor next : Cursor} :
    (p >>= q) cursor = .done b next ↔
      ∃ a middle, p cursor = .done a middle ∧ q a middle = .done b next := by
  rw [bind_apply]
  cases p cursor with
  | done a middle =>
    constructor
    · intro h
      exact ⟨a, middle, rfl, h⟩
    · rintro ⟨a', middle', heq, h⟩
      cases heq
      exact h
  | torn => exact iff_of_false nofun nofun
  | failed e => exact iff_of_false nofun nofun

theorem reads_pure (start : Nat) (a : α) : Reads (pure a : Reader ε α) start [] a where
  whole _ := rfl
  cut _ h := absurd h (Nat.not_lt_zero _)

theorem Reads.bind {start : Nat} (h : Reads p start bytes a)
    (hq : Reads (q a) (start + bytes.length) more b) :
    Reads (p >>= q) start (bytes ++ more) b where
  whole tail := by
    rw [bind_apply, List.append_assoc, h.whole]
    exact (hq.whole tail).trans (by rw [List.length_append, Nat.add_assoc])
  cut size hsize := by
    rw [bind_apply]
    by_cases hless : size < bytes.length
    · rw [List.take_append_of_le_length (Nat.le_of_lt hless), h.cut size hless]
    · rw [List.take_append, List.take_of_length_le (Nat.le_of_not_lt hless), h.whole]
      apply hq.cut
      rw [List.length_append] at hsize
      omega

theorem reads_take (start : Nat) {count : Nat} (h : bytes.length = count) :
    Reads (take count : Reader ε Bytes) start bytes bytes where
  whole tail := by
    rw [← h, take, if_neg, List.take_left, List.drop_left]
    rw [List.length_append]
    omega
  cut size hsize := by
    rw [take, if_pos]
    rw [List.length_take]
    omega

theorem Reads.require {start : Nat} {condition : Bool} {error : ε} {r : Unit → Reader ε β}
    (hcondition : condition = true) (h : Reads (r ()) start bytes b) :
    Reads (require condition error >>= r) start bytes b := by
  rw [hcondition]
  exact h

theorem Reads.of_offset {start : Nat} {r : Nat → Reader ε β} (h : Reads (r start) start bytes b) :
    Reads (offset >>= r) start bytes b where
  whole tail := h.whole tail
  cut size hsize := h.cut size hsize

theorem advances_pure (a : α) : Advances (pure a : Reader ε α) := by
  intro cursor a' next h
  cases h
  exact ⟨[], rfl, rfl⟩

theorem advances_offset : Advances (offset : Reader ε Nat) := by
  intro cursor a' next h
  cases h
  exact ⟨[], rfl, rfl⟩

theorem advances_take (count : Nat) : Advances (take count : Reader ε Bytes) := by
  intro cursor a next h
  rw [take] at h
  split at h
  · cases h
  · next hlength =>
    cases h
    refine ⟨cursor.rest.take count, (List.take_append_drop _ _).symm, ?_⟩
    rw [List.length_take_of_le (Nat.le_of_not_lt hlength)]

theorem advances_require (condition : Bool) (error : ε) : Advances (require condition error) := by
  intro cursor a next h
  rw [Reader.require] at h
  split at h
  · cases h
    exact ⟨[], rfl, rfl⟩
  · cases h

theorem Advances.bind (h : Advances p) (hq : ∀ a, Advances (q a)) : Advances (p >>= q) := by
  intro cursor b next hdone
  obtain ⟨a, middle, hp, hnext⟩ := bind_eq_done.mp hdone
  obtain ⟨used, hused, hmiddle⟩ := h cursor a middle hp
  obtain ⟨more, hmore, hoffset⟩ := hq a middle b next hnext
  refine ⟨used ++ more, ?_, ?_⟩
  · rw [hused, hmore, List.append_assoc]
  · rw [hoffset, hmiddle, List.length_append, Nat.add_assoc]

theorem Advances.length_le (h : Advances p) {cursor next : Cursor}
    (hdone : p cursor = .done a next) : next.rest.length ≤ cursor.rest.length := by
  obtain ⟨used, hused, -⟩ := h cursor a next hdone
  rw [hused, List.length_append]
  omega

theorem Progresses.of_take {count : Nat} (hcount : 0 < count) {r : Bytes → Reader ε β}
    (h : ∀ bytes, Advances (r bytes)) : Progresses (take count >>= r) := by
  intro cursor b next hdone
  obtain ⟨bytes, middle, htake, hnext⟩ := bind_eq_done.mp hdone
  have hle := (h bytes).length_le hnext
  rw [take] at htake
  split at htake
  · cases htake
  · next hlength =>
    cases htake
    rw [List.length_drop] at hle
    omega

theorem Progresses.of_offset {r : Nat → Reader ε β} (h : ∀ offset, Progresses (r offset)) :
    Progresses (offset >>= r) :=
  fun cursor => h cursor.offset cursor

end Rules

section Repeat

variable {p : Reader ε Bool} {h : Progresses p} {bytes more : Bytes}

theorem repeatUntil_eq (cursor : Cursor) :
    repeatUntil p h cursor = match p cursor with
      | .done true next => .done () next
      | .done false next => repeatUntil p h next
      | .torn => .torn
      | .failed e => .failed e := by
  rw [repeatUntil]
  split <;> simp only [*]

theorem Reads.last {start : Nat} (hread : Reads p start bytes true) :
    Reads (repeatUntil p h) start bytes () where
  whole tail := by rw [repeatUntil_eq, hread.whole]
  cut size hsize := by rw [repeatUntil_eq, hread.cut size hsize]

theorem Reads.again {start : Nat} (hread : Reads p start bytes false)
    (hmore : Reads (repeatUntil p h) (start + bytes.length) more ()) :
    Reads (repeatUntil p h) start (bytes ++ more) () where
  whole tail := by
    rw [repeatUntil_eq, List.append_assoc, hread.whole]
    exact (hmore.whole tail).trans (by rw [List.length_append, Nat.add_assoc])
  cut size hsize := by
    rw [repeatUntil_eq]
    by_cases hless : size < bytes.length
    · rw [List.take_append_of_le_length (Nat.le_of_lt hless), hread.cut size hless]
    · rw [List.take_append, List.take_of_length_le (Nat.le_of_not_lt hless), hread.whole]
      apply hmore.cut
      rw [List.length_append] at hsize
      omega

theorem advances_repeatUntil (hp : Advances p) : Advances (repeatUntil p h) := by
  intro cursor a next hdone
  induction cursor using repeatUntil.induct p h with
  | case1 cursor middle hread =>
    rw [repeatUntil_eq, hread] at hdone
    cases hdone
    exact hp cursor true next hread
  | case2 cursor middle hread ih =>
    rw [repeatUntil_eq, hread] at hdone
    obtain ⟨used, hused, hmiddle⟩ := hp cursor false middle hread
    obtain ⟨more, hmore, hoffset⟩ := ih hdone
    refine ⟨used ++ more, ?_, ?_⟩
    · rw [hused, hmore, List.append_assoc]
    · rw [hoffset, hmiddle, List.length_append, Nat.add_assoc]
  | case3 cursor hread =>
    rw [repeatUntil_eq, hread] at hdone
    cases hdone
  | case4 cursor e hread =>
    rw [repeatUntil_eq, hread] at hdone
    cases hdone

end Repeat

end Reader

end Harness.Foundation
