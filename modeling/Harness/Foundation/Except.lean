import Mathlib.Data.List.Basic

universe u v w

namespace Harness.Foundation

def require (condition : Bool) (message : String) : Except String Unit :=
  if condition then .ok () else .error message

@[simp] theorem require_true (message : String) : require true message = .ok () := rfl

@[simp] theorem require_false (message : String) : require false message = .error message := rfl

@[simp] theorem require_eq_ok {condition : Bool} {message : String} {u : Unit} :
    require condition message = .ok u ↔ condition = true := by
  cases condition <;> simp [require]

def expect {α : Type v} (value : Option α) (message : String) : Except String α :=
  match value with
  | some a => .ok a
  | none => .error message

@[simp] theorem expect_some {α : Type v} (a : α) (message : String) :
    expect (some a) message = .ok a := rfl

@[simp] theorem expect_eq_ok {α : Type v} {value : Option α} {message : String} {a : α} :
    expect value message = .ok a ↔ value = some a := by
  cases value <;> simp [expect]

variable {ε : Type u} {α : Type v} {β : Type v}

@[simp] theorem ok_bind (a : α) (f : α → Except ε β) : (Except.ok a >>= f) = f a := rfl

@[simp] theorem error_bind (e : ε) (f : α → Except ε β) :
    ((Except.error e : Except ε α) >>= f) = .error e := rfl

@[simp] theorem pure_eq_ok (a : α) : (pure a : Except ε α) = .ok a := rfl

theorem bind_eq_ok {x : Except ε α} {f : α → Except ε β} {b : β} :
    (x >>= f) = .ok b ↔ ∃ a, x = .ok a ∧ f a = .ok b := by
  cases x with
  | error e => simp
  | ok a => simp

theorem map_eq_ok {x : Except ε α} {f : α → β} {b : β} :
    (f <$> x) = .ok b ↔ ∃ a, x = .ok a ∧ f a = b := by
  cases x with
  | error e => simp [Functor.map, Except.map]
  | ok a => simp [Functor.map, Except.map]

def isOk : Except ε α → Bool
  | .ok _ => true
  | .error _ => false

theorem isOk_iff {x : Except ε α} : isOk x = true ↔ ∃ a, x = .ok a := by
  cases x <;> simp [isOk]

theorem toOption_eq_some {x : Except ε α} {a : α} : x.toOption = some a ↔ x = .ok a := by
  cases x with
  | error e => exact ⟨nofun, nofun⟩
  | ok b => simp [Except.toOption]

theorem forM_eq_ok {f : α → Except ε PUnit} {items : List α} :
    forM items f = .ok ⟨⟩ ↔ ∀ item ∈ items, f item = .ok ⟨⟩ := by
  induction items with
  | nil => simp
  | cons item items ih =>
    rw [List.forM_cons, List.forall_mem_cons, ← ih]
    cases f item with
    | error error => simp
    | ok value => simp

theorem mapM_eq_ok {f : α → Except ε β} {items : List α} {results : List β} :
    items.mapM f = .ok results ↔ List.Forall₂ (fun item result => f item = .ok result) items results := by
  induction items generalizing results with
  | nil =>
    constructor
    · rintro ⟨⟩
      exact .nil
    · rintro ⟨⟩
      rfl
  | cons item items ih =>
    rw [List.mapM_cons]
    constructor
    · intro h
      obtain ⟨result, hresult, h⟩ := bind_eq_ok.mp h
      obtain ⟨rest, hrest, h⟩ := bind_eq_ok.mp h
      cases h
      exact .cons hresult (ih.mp hrest)
    · rintro (_ | ⟨hresult, hrest⟩)
      rw [hresult, ok_bind, ih.mpr hrest]
      rfl

theorem mapM_mem {f : α → Except ε β} {items : List α} {results : List β}
    (h : items.mapM f = .ok results) {item : α} (hmem : item ∈ items) :
    ∃ result ∈ results, f item = .ok result := by
  have hall := mapM_eq_ok.mp h
  clear h
  induction hall with
  | nil => cases hmem
  | cons hfirst _ ih =>
    cases hmem with
    | head => exact ⟨_, List.mem_cons_self, hfirst⟩
    | tail _ hmem =>
      obtain ⟨result, hresult, heq⟩ := ih hmem
      exact ⟨result, List.mem_cons_of_mem _ hresult, heq⟩

theorem mapM_mem_of_result {f : α → Except ε β} {items : List α} {results : List β}
    (h : items.mapM f = .ok results) {result : β} (hmem : result ∈ results) :
    ∃ item ∈ items, f item = .ok result := by
  have hall := mapM_eq_ok.mp h
  clear h
  induction hall with
  | nil => cases hmem
  | cons hfirst _ ih =>
    cases hmem with
    | head => exact ⟨_, List.mem_cons_self, hfirst⟩
    | tail _ hmem =>
      obtain ⟨item, hitem, heq⟩ := ih hmem
      exact ⟨item, List.mem_cons_of_mem _ hitem, heq⟩

theorem mapM_mono {f g : α → Except ε β} {items : List α} {results : List β}
    (h : items.mapM f = .ok results)
    (himp : ∀ item ∈ items, ∀ result, f item = .ok result → g item = .ok result) :
    items.mapM g = .ok results := by
  have hall := mapM_eq_ok.mp h
  clear h
  apply mapM_eq_ok.mpr
  induction hall with
  | nil => exact .nil
  | cons hfirst _ ih =>
    exact .cons (himp _ List.mem_cons_self _ hfirst)
      (ih fun item hmem => himp item (List.mem_cons_of_mem _ hmem))

/-- Fold a fallible transition over a list, stopping at the first rejection. -/
def foldOk (f : β → α → Except ε β) : β → List α → Except ε β
  | b, [] => .ok b
  | b, a :: as => f b a >>= fun b' => foldOk f b' as

@[simp] theorem foldOk_nil (f : β → α → Except ε β) (b : β) : foldOk f b [] = .ok b := rfl

@[simp] theorem foldOk_cons (f : β → α → Except ε β) (b : β) (a : α) (as : List α) :
    foldOk f b (a :: as) = f b a >>= fun b' => foldOk f b' as := rfl

theorem foldOk_append (f : β → α → Except ε β) (b : β) (as bs : List α) :
    foldOk f b (as ++ bs) = foldOk f b as >>= fun b' => foldOk f b' bs := by
  induction as generalizing b with
  | nil => rfl
  | cons a as ih =>
    simp only [List.cons_append, foldOk_cons]
    cases f b a with
    | error e => rfl
    | ok b' => exact ih b'

theorem foldOk_snoc (f : β → α → Except ε β) (b : β) (as : List α) (a : α) :
    foldOk f b (as ++ [a]) = foldOk f b as >>= fun b' => f b' a := by
  rw [foldOk_append]
  congr 1
  funext b'
  simp only [foldOk_cons, foldOk_nil]
  cases f b' a <;> rfl

/-- The induction rule of an accepted fold: what every accepted transition preserves holds
at its end. -/
theorem foldOk_invariant {f : β → α → Except ε β} (inv : List α → β → Prop)
    (hstep : ∀ seen b a b', inv seen b → f b a = .ok b' → inv (seen ++ [a]) b')
    {b b' : β} {as : List α} (h : foldOk f b as = .ok b') (hb : inv [] b) : inv as b' := by
  suffices general : ∀ (as seen : List α) (b : β), inv seen b →
      foldOk f b as = .ok b' → inv (seen ++ as) b' by
    simpa using general as [] b hb h
  intro as
  induction as with
  | nil =>
    intro seen b hinv hfold
    obtain rfl : b = b' := by simpa using hfold
    simpa using hinv
  | cons a as ih =>
    intro seen b hinv hfold
    obtain ⟨c, hc, hrest⟩ := bind_eq_ok.mp hfold
    have := ih (seen ++ [a]) c (hstep seen b a c hinv hc) hrest
    simpa using this

section Agree

variable {γ : Type v} {δ : Type v}

inductive Agree (R : α → γ → Prop) : Except ε α → Except ε γ → Prop
  | error (e : ε) : Agree R (.error e) (.error e)
  | ok {a : α} {c : γ} : R a c → Agree R (.ok a) (.ok c)

theorem Agree.imp {R S : α → γ → Prop} {x : Except ε α} {y : Except ε γ} (h : Agree R x y)
    (himp : ∀ a c, x = .ok a → y = .ok c → R a c → S a c) : Agree S x y := by
  cases h with
  | error e => exact .error e
  | ok hR => exact .ok (himp _ _ rfl rfl hR)

theorem Agree.bind {R : α → γ → Prop} {S : β → δ → Prop} {x : Except ε α} {y : Except ε γ}
    (h : Agree R x y) {f : α → Except ε β} {g : γ → Except ε δ}
    (hcont : ∀ a c, R a c → Agree S (f a) (g c)) : Agree S (x >>= f) (y >>= g) := by
  cases h with
  | error e => exact .error e
  | ok hR => exact hcont _ _ hR

theorem Agree.eq {R : α → γ → Prop} {x : Except ε α} {y : Except ε γ} (h : Agree R x y)
    {f : α → Except ε β} {g : γ → Except ε β} (hcont : ∀ a c, R a c → f a = g c) :
    (x >>= f) = (y >>= g) := by
  cases h with
  | error e => rfl
  | ok hR => exact hcont _ _ hR

theorem Agree.foldOk_flatten {R : α → γ → Prop} {f : α → List β → Except ε α}
    {g : γ → β → Except ε γ} (hstep : ∀ a c bs, R a c → Agree R (f a bs) (foldOk g c bs))
    {a : α} {c : γ} (h : R a c) (chunks : List (List β)) :
    Agree R (foldOk f a chunks) (foldOk g c chunks.flatten) := by
  induction chunks generalizing a c with
  | nil => exact .ok h
  | cons chunk chunks ih =>
    rw [foldOk_cons, List.flatten_cons, foldOk_append]
    exact (hstep a c chunk h).bind fun a' c' h' => ih h'

end Agree

end Harness.Foundation
