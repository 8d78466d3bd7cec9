import Mathlib.Data.List.Basic

universe u v w

namespace Harness.Foundation

def Attempt (σ : Type u) (ε : Type v) (α : Type v) : Type (max u v) := σ → Except ε α × σ

namespace Attempt

variable {σ : Type u} {ε α β : Type v}

instance : Monad (Attempt σ ε) where
  pure a := fun s => (.ok a, s)
  bind x f := fun s =>
    match x s with
    | (.ok a, t) => f a t
    | (.error e, t) => (.error e, t)

def fail (e : ε) : Attempt σ ε α := fun s => (.error e, s)

def ask (f : σ → α) : Attempt σ ε α := fun s => (.ok (f s), s)

def guarded (condition : Bool) (e : ε) : Attempt σ ε PUnit :=
  fun s => (if condition = true then .ok ⟨⟩ else .error e, s)

def Ends (x : Attempt σ ε α) (Q : α → σ → Prop) (E : ε → σ → Prop) (s : σ) : Prop :=
  match x s with
  | (.ok a, t) => Q a t
  | (.error e, t) => E e t

variable {Q : α → σ → Prop} {E : ε → σ → Prop} {s : σ}

@[simp] theorem ends_ask {f : σ → α} : Ends (ask f : Attempt σ ε α) Q E s ↔ Q (f s) s := Iff.rfl

theorem ends_guarded {condition : Bool} {e : ε} {Q : PUnit → σ → Prop} :
    Ends (guarded condition e : Attempt σ ε PUnit) Q E s ↔
      (condition = true → Q ⟨⟩ s) ∧ (condition = false → E e s) := by
  cases condition with
  | false => exact ⟨fun h => ⟨nofun, fun _ => h⟩, fun h => h.2 rfl⟩
  | true => exact ⟨fun h => ⟨fun _ => h, nofun⟩, fun h => h.1 rfl⟩

theorem ends_bind {x : Attempt σ ε α} {f : α → Attempt σ ε β} {Q : β → σ → Prop} :
    Ends (x >>= f) Q E s ↔ Ends x (fun a t => Ends (f a) Q E t) E s := by
  change (match (match x s with
    | (.ok a, t) => f a t
    | (.error e, t) => (.error e, t)) with
    | (.ok b, t) => Q b t
    | (.error e, t) => E e t) ↔ _
  unfold Ends
  split <;> split <;> simp_all

theorem Ends.imp {x : Attempt σ ε α} {Q' : α → σ → Prop} {E' : ε → σ → Prop} (h : Ends x Q E s)
    (hQ : ∀ a t, Q a t → Q' a t) (hE : ∀ e t, E e t → E' e t) : Ends x Q' E' s := by
  unfold Ends at h ⊢
  split
  · rename_i a t heq
    rw [heq] at h
    exact hQ a t h
  · rename_i e t heq
    rw [heq] at h
    exact hE e t h

theorem Ends.bind {x : Attempt σ ε α} {f : α → Attempt σ ε β} {R : β → σ → Prop}
    (h : Ends x Q E s) (hf : ∀ a t, Q a t → Ends (f a) R E t) : Ends (x >>= f) R E s :=
  ends_bind.mpr (h.imp hf fun _ _ he => he)

theorem ends_map {x : Attempt σ ε α} {f : α → β} {Q : β → σ → Prop} :
    Ends (f <$> x) Q E s ↔ Ends x (fun a => Q (f a)) E s :=
  ends_bind

theorem Ends.ok {x : Attempt σ ε α} (h : Ends x Q E s) {a : α} {t : σ} (hx : x s = (.ok a, t)) :
    Q a t := by
  unfold Ends at h
  rwa [hx] at h

theorem Ends.error {x : Attempt σ ε α} (h : Ends x Q E s) {e : ε} {t : σ} (hx : x s = (.error e, t)) :
    E e t := by
  unfold Ends at h
  rwa [hx] at h

theorem Ends.state {x : Attempt σ ε α} {P : σ → Prop} (h : Ends x (fun _ => P) (fun _ => P) s) :
    P (x s).2 := by
  unfold Ends at h
  split at h
  · rename_i a t heq
    rw [heq]
    exact h
  · rename_i e t heq
    rw [heq]
    exact h

theorem ends_forM {items : List α} {f : α → Attempt σ ε PUnit} (inv : List α → σ → Prop)
    (hstep : ∀ item rest t, inv (item :: rest) t → Ends (f item) (fun _ => inv rest) E t)
    (hs : inv items s) : Ends (items.forM f) (fun _ => inv []) E s := by
  induction items generalizing s with
  | nil => exact hs
  | cons item rest ih =>
    exact (hstep item rest s hs).bind fun _ t ht => ih ht

end Attempt

end Harness.Foundation
