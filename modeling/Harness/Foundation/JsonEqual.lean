import Harness.Foundation.Json
import Mathlib.Data.List.Perm.Subperm

namespace Harness.Foundation

namespace Json

theorem deepEqualFields_iff {as bs : List (String × Json)} :
    deepEqualFields as bs = true ↔
      ∀ key a, (key, a) ∈ as → ∃ b, bs.lookup key = some b ∧ a.deepEqual b = true := by
  induction as with
  | nil => simp
  | cons field as ih =>
    obtain ⟨key, a⟩ := field
    rw [deepEqualFields_cons, ih]
    constructor
    · rintro ⟨hfirst, hrest⟩ name value hmem
      rcases List.mem_cons.mp hmem with heq | hmem
      · cases heq
        exact hfirst
      · exact hrest name value hmem
    · intro h
      exact ⟨h key a List.mem_cons_self, fun name value hmem => h name value (List.mem_cons_of_mem _ hmem)⟩

theorem wellFormedFields_iff {fields : List (String × Json)} :
    WellFormedFields fields ↔ ∀ field ∈ fields, field.2.WellFormed := by
  constructor
  · intro h
    induction fields with
    | nil => exact fun _ hmem => absurd hmem List.not_mem_nil
    | cons head fields ih =>
      intro field hmem
      rcases List.mem_cons.mp hmem with rfl | hmem
      · exact h.1
      · exact ih h.2 field hmem
  · exact wellFormedFields_of_mem

theorem mem_of_lookup {fields : List (String × Json)} {key : String} {value : Json}
    (h : fields.lookup key = some value) : (key, value) ∈ fields := by
  induction fields with
  | nil => cases h
  | cons field fields ih =>
    obtain ⟨name, other⟩ := field
    rw [List.lookup_cons] at h
    split at h
    · rename_i heq
      cases h
      rw [beq_iff_eq.mp heq]
      exact List.mem_cons_self
    · exact List.mem_cons_of_mem _ (ih h)

mutual

theorem deepEqual_trans : (a : Json) → ∀ {b c : Json}, a.deepEqual b = true →
    b.deepEqual c = true → a.deepEqual c = true
  | .null, .null, _, _, h => h
  | .bool x, .bool y, .bool z, hxy, hyz => by
    simp only [deepEqual, beq_iff_eq] at hxy hyz ⊢
    exact hxy.trans hyz
  | .num x, _, _, hxy, hyz => by
    rw [deepEqual_num_iff] at hxy
    rw [hxy] at hyz
    exact hyz
  | .str x, _, _, hxy, hyz => by
    rw [deepEqual_str_iff] at hxy
    rw [hxy] at hyz
    exact hyz
  | .arr xs, .arr ys, .arr zs, hxy, hyz => deepEqualItems_trans xs hxy hyz
  | .obj xs, .obj ys, .obj zs, hxy, hyz => by
    rw [deepEqual_obj_iff] at hxy hyz ⊢
    exact ⟨hxy.1.trans hyz.1, deepEqualFields_trans xs hxy.2 hyz.2⟩

theorem deepEqualItems_trans : (as : List Json) → ∀ {bs cs : List Json},
    deepEqualItems as bs = true → deepEqualItems bs cs = true → deepEqualItems as cs = true
  | [], [], _, _, h => h
  | a :: as, b :: bs, c :: cs, hab, hbc => by
    rw [deepEqualItems, Bool.and_eq_true] at hab hbc ⊢
    exact ⟨deepEqual_trans a hab.1 hbc.1, deepEqualItems_trans as hab.2 hbc.2⟩

theorem deepEqualFields_trans : (as : List (String × Json)) → ∀ {bs cs : List (String × Json)},
    deepEqualFields as bs = true → deepEqualFields bs cs = true → deepEqualFields as cs = true
  | [], _, _, _, _ => rfl
  | (key, a) :: as, bs, cs, hab, hbc => by
    rw [deepEqualFields_cons] at hab ⊢
    obtain ⟨⟨b, hb, hfirst⟩, hrest⟩ := hab
    obtain ⟨c, hc, hsecond⟩ := deepEqualFields_iff.mp hbc key b (mem_of_lookup hb)
    exact ⟨⟨c, hc, deepEqual_trans a hfirst hsecond⟩, deepEqualFields_trans as hrest hbc⟩

end

theorem keys_subset_of_length {as bs : List (String × Json)} (has : (as.map Prod.fst).Nodup)
    (hlength : as.length = bs.length)
    (hfound : ∀ key a, (key, a) ∈ as → ∃ b, (key, b) ∈ bs) {key : String} {b : Json}
    (hb : (key, b) ∈ bs) : ∃ a, (key, a) ∈ as := by
  have hsub : as.map Prod.fst ⊆ bs.map Prod.fst := by
    intro name hname
    obtain ⟨⟨_, a⟩, hmem, rfl⟩ := List.mem_map.mp hname
    obtain ⟨value, hvalue⟩ := hfound _ a hmem
    exact List.mem_map.mpr ⟨_, hvalue, rfl⟩
  have hperm : (as.map Prod.fst).Perm (bs.map Prod.fst) :=
    (List.Nodup.subperm has hsub).perm_of_length_le (by simp [hlength])
  have hkey : key ∈ as.map Prod.fst := hperm.mem_iff.mpr (List.mem_map.mpr ⟨_, hb, rfl⟩)
  obtain ⟨⟨_, a⟩, hmem, rfl⟩ := List.mem_map.mp hkey
  exact ⟨a, hmem⟩

mutual

theorem deepEqual_symm : (a : Json) → ∀ {b : Json}, a.WellFormed → b.WellFormed →
    a.deepEqual b = true → b.deepEqual a = true
  | .null, .null, _, _, h => h
  | .bool x, .bool y, _, _, h => by
    simp only [deepEqual, beq_iff_eq] at h ⊢
    exact h.symm
  | .num x, b, _, _, h => by
    rw [deepEqual_num_iff] at h
    rw [h, deepEqual_num_iff]
  | .str x, b, _, _, h => by
    rw [deepEqual_str_iff] at h
    rw [h, deepEqual_str_iff]
  | .arr xs, .arr ys, hxs, hys, h => deepEqualItems_symm xs hxs hys h
  | .obj xs, .obj ys, hxs, hys, h => by
    rw [deepEqual_obj_iff] at h ⊢
    have hback := deepEqualFields_back xs hxs.2 hys.2 h.2
    refine ⟨h.1.symm, deepEqualFields_iff.mpr fun key y hy => ?_⟩
    have hfound : ∀ name x, (name, x) ∈ xs → ∃ value, (name, value) ∈ ys := fun name x hx =>
      let ⟨value, hvalue, _⟩ := hback name x hx
      ⟨value, mem_of_lookup hvalue⟩
    obtain ⟨x, hx⟩ := keys_subset_of_length hxs.1 h.1 hfound hy
    obtain ⟨value, hvalue, heq⟩ := hback key x hx
    rw [lookup_of_nodup hys.1 hy] at hvalue
    cases hvalue
    exact ⟨x, lookup_of_nodup hxs.1 hx, heq⟩

theorem deepEqualItems_symm : (as : List Json) → ∀ {bs : List Json}, WellFormedItems as →
    WellFormedItems bs → deepEqualItems as bs = true → deepEqualItems bs as = true
  | [], [], _, _, h => h
  | a :: as, b :: bs, has, hbs, h => by
    rw [deepEqualItems, Bool.and_eq_true] at h ⊢
    exact ⟨deepEqual_symm a has.1 hbs.1 h.1, deepEqualItems_symm as has.2 hbs.2 h.2⟩

theorem deepEqualFields_back : (as : List (String × Json)) → ∀ {bs : List (String × Json)},
    WellFormedFields as → WellFormedFields bs → deepEqualFields as bs = true →
    ∀ key a, (key, a) ∈ as → ∃ b, bs.lookup key = some b ∧ b.deepEqual a = true
  | [], _, _, _, _, _, _, hmem => absurd hmem List.not_mem_nil
  | (name, first) :: as, bs, has, hbs, h, key, a, hmem => by
    obtain ⟨⟨b, hb, hfirst⟩, hrest⟩ := deepEqualFields_cons.mp h
    rcases List.mem_cons.mp hmem with heq | hmem
    · cases heq
      have hwell := wellFormedFields_iff.mp hbs _ (mem_of_lookup hb)
      exact ⟨b, hb, deepEqual_symm first has.1 hwell hfirst⟩
    · exact deepEqualFields_back as has.2 hbs hrest key a hmem

end

end Json

end Harness.Foundation
