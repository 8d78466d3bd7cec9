import Mathlib.Data.List.Basic

/-! Runs of state machines.  A `run` follows a partial transition function through a list of
labels; a `transcript` collects the answers of a machine that never refuses an input. -/

universe u v w

namespace Harness.Foundation

section Partial

variable {σ : Type u} {ε : Type v} (step : σ → ε → Option σ)

def run : σ → List ε → Option σ
  | s, [] => some s
  | s, e :: es => (step s e).bind fun t => run t es

@[simp] theorem run_nil (s : σ) : run step s [] = some s := rfl

@[simp] theorem run_cons (s : σ) (e : ε) (es : List ε) :
    run step s (e :: es) = (step s e).bind fun t => run step t es := rfl

theorem run_append (s : σ) (es fs : List ε) :
    run step s (es ++ fs) = (run step s es).bind fun t => run step t fs := by
  induction es generalizing s with
  | nil => rfl
  | cons e es ih =>
    simp only [List.cons_append, run_cons]
    cases step s e with
    | none => rfl
    | some t => exact ih t

theorem run_snoc (s : σ) (es : List ε) (e : ε) :
    run step s (es ++ [e]) = (run step s es).bind fun t => step t e := by
  simp only [run_append, run_cons, run_nil, Option.bind_fun_some]

variable {step} in
theorem run_front {s t : σ} {es fs : List ε} (h : run step s (es ++ fs) = some t) :
    ∃ r, run step s es = some r ∧ run step r fs = some t := by
  rw [run_append] at h
  exact Option.bind_eq_some_iff.mp h

variable {step}

theorem run_invariant (inv : σ → Prop)
    (hstep : ∀ s e t, inv s → step s e = some t → inv t)
    {s t : σ} {es : List ε} (h : run step s es = some t) (hs : inv s) : inv t := by
  induction es generalizing s with
  | nil =>
    obtain rfl : s = t := by simpa using h
    exact hs
  | cons e es ih =>
    obtain ⟨r, hr, hrest⟩ := Option.bind_eq_some_iff.mp h
    exact ih hrest (hstep s e r hs hr)

variable (step) in
/-- Every step the run takes starts from a state and a label that meet `guard`. -/
def Along (guard : σ → ε → Prop) : σ → List ε → Prop
  | _, [] => True
  | s, e :: es => guard s e ∧ ∀ t, step s e = some t → Along guard t es

instance decidableAlong (step : σ → ε → Option σ) (guard : σ → ε → Prop)
    [∀ s e, Decidable (guard s e)] : ∀ s es, Decidable (Along step guard s es)
  | _, [] => isTrue trivial
  | s, e :: es =>
    have : Decidable (∀ t, step s e = some t → Along step guard t es) :=
      match step s e with
      | none => isTrue nofun
      | some t =>
        have := decidableAlong step guard t es
        decidable_of_iff (Along step guard t es)
          ⟨fun h _ heq => Option.some.inj heq ▸ h, fun h => h t rfl⟩
    inferInstanceAs (Decidable (guard s e ∧ _))

theorem run_invariant_along {guard : σ → ε → Prop} (inv : σ → Prop)
    (hstep : ∀ s e t, inv s → guard s e → step s e = some t → inv t)
    {s t : σ} {es : List ε} (h : run step s es = some t) (hguard : Along step guard s es)
    (hs : inv s) : inv t := by
  induction es generalizing s with
  | nil =>
    obtain rfl : s = t := by simpa using h
    exact hs
  | cons e es ih =>
    obtain ⟨r, hr, hrest⟩ := Option.bind_eq_some_iff.mp h
    exact ih hrest (hguard.2 r hr) (hstep s e r hs hguard.1 hr)

end Partial

section Total

variable {σ : Type u} {τ : Type u} {ι : Type v} {ω : Type w}

def transcript (step : σ → ι → σ × ω) : σ → List ι → σ × List ω
  | s, [] => (s, [])
  | s, i :: is =>
    let (t, o) := step s i
    let (u, os) := transcript step t is
    (u, o :: os)

@[simp] theorem transcript_nil (step : σ → ι → σ × ω) (s : σ) :
    transcript step s [] = (s, []) := rfl

@[simp] theorem transcript_cons (step : σ → ι → σ × ω) (s : σ) (i : ι) (is : List ι) :
    transcript step s (i :: is) =
      ((transcript step (step s i).1 is).1,
        (step s i).2 :: (transcript step (step s i).1 is).2) := rfl

theorem transcript_invariant {step : σ → ι → σ × ω} (inv : σ → Prop)
    (hstep : ∀ s i, inv s → inv (step s i).1) {s : σ} (is : List ι) (hs : inv s) :
    inv (transcript step s is).1 := by
  induction is generalizing s with
  | nil => exact hs
  | cons i is ih => exact ih (hstep s i hs)

def Throughout (step : σ → ι → σ × ω) (guard : σ → ι → Prop) : σ → List ι → Prop
  | _, [] => True
  | s, i :: is => guard s i ∧ Throughout step guard (step s i).1 is

theorem Throughout.and {step : σ → ι → σ × ω} {p q : σ → ι → Prop} {s : σ} {is : List ι}
    (hp : Throughout step p s is) (hq : Throughout step q s is) :
    Throughout step (fun s i => p s i ∧ q s i) s is := by
  induction is generalizing s with
  | nil => trivial
  | cons i is ih => exact ⟨⟨hp.1, hq.1⟩, ih hp.2 hq.2⟩

theorem throughout_of_forall {step : σ → ι → σ × ω} {guard : σ → ι → Prop} {s : σ} {is : List ι}
    (h : ∀ i ∈ is, ∀ s, guard s i) : Throughout step guard s is := by
  induction is generalizing s with
  | nil => trivial
  | cons i is ih =>
    exact ⟨h i List.mem_cons_self s, ih fun j hj => h j (List.mem_cons_of_mem _ hj)⟩

theorem transcript_invariant_throughout {step : σ → ι → σ × ω} {guard : σ → ι → Prop}
    (inv : σ → Prop) (hstep : ∀ s i, inv s → guard s i → inv (step s i).1) {s : σ} {is : List ι}
    (h : Throughout step guard s is) (hs : inv s) : inv (transcript step s is).1 := by
  induction is generalizing s with
  | nil => exact hs
  | cons i is ih => exact ih h.2 (hstep s i hs h.1)

theorem throughout_iff_of_invariant {step : σ → ι → σ × ω} {guard p q : σ → ι → Prop}
    (inv : σ → Prop) (hstep : ∀ s i, inv s → guard s i → q s i → inv (step s i).1)
    (hiff : ∀ s i, inv s → guard s i → (p s i ↔ q s i)) {s : σ} {is : List ι}
    (h : Throughout step guard s is) (hs : inv s) :
    Throughout step p s is ↔ Throughout step q s is := by
  induction is generalizing s with
  | nil => exact Iff.rfl
  | cons i is ih =>
    constructor
    · rintro ⟨hp, hrest⟩
      have hq := (hiff s i hs h.1).mp hp
      exact ⟨hq, (ih h.2 (hstep s i hs h.1 hq)).mp hrest⟩
    · rintro ⟨hq, hrest⟩
      exact ⟨(hiff s i hs h.1).mpr hq, (ih h.2 (hstep s i hs h.1 hq)).mpr hrest⟩

theorem Throughout.last {step : σ → ι → σ × ω} {guard : σ → ι → Prop} {s : σ} {is : List ι} {i : ι}
    (h : Throughout step guard s (is ++ [i])) : guard (transcript step s is).1 i := by
  induction is generalizing s with
  | nil => exact h.1
  | cons j is ih => exact ih h.2

instance decidableThroughout (step : σ → ι → σ × ω) (guard : σ → ι → Prop)
    [∀ s i, Decidable (guard s i)] : ∀ s is, Decidable (Throughout step guard s is)
  | _, [] => isTrue trivial
  | s, i :: is => @instDecidableAnd _ _ _ (decidableThroughout step guard (step s i).1 is)

theorem transcript_simulation {impl : σ → ι → σ × ω} {spec : τ → ι → τ × ω}
    (rel : σ → τ → Prop)
    (hstep : ∀ s t i, rel s t → (impl s i).2 = (spec t i).2 ∧ rel (impl s i).1 (spec t i).1)
    {s : σ} {t : τ} (is : List ι) (h : rel s t) :
    (transcript impl s is).2 = (transcript spec t is).2 ∧
      rel (transcript impl s is).1 (transcript spec t is).1 := by
  induction is generalizing s t with
  | nil => exact ⟨rfl, h⟩
  | cons i is ih =>
    obtain ⟨hout, hrel⟩ := hstep s t i h
    obtain ⟨houts, hend⟩ := ih hrel
    exact ⟨by simp only [transcript_cons, hout, houts], hend⟩

def emit (step : σ → ι → σ × List ω) (s : σ) (is : List ι) : σ × List ω :=
  ((transcript step s is).1, (transcript step s is).2.flatten)

/-- What holds of the inputs seen, the state and the output is kept by a run of steps that keep
it. -/
theorem emit_relation {ε : Type v} {step : σ → ι → σ × List ω} (seenBy : ι → List ε)
    (rel : List ε → σ → List ω → Prop)
    (hstep : ∀ seen s out i, rel seen s out →
      rel (seen ++ seenBy i) (step s i).1 (out ++ (step s i).2))
    {seen : List ε} {s : σ} {out : List ω} (is : List ι) (h : rel seen s out) :
    rel (seen ++ is.flatMap seenBy) (emit step s is).1 (out ++ (emit step s is).2) := by
  induction is generalizing seen s out with
  | nil =>
    rw [List.flatMap_nil, List.append_nil]
    exact (List.append_nil out).symm ▸ h
  | cons i is ih =>
    have hrest := ih (hstep seen s out i h)
    rw [List.append_assoc, List.append_assoc] at hrest
    exact hrest

end Total

end Harness.Foundation
