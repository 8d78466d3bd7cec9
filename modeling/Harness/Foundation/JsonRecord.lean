import Harness.Foundation.SafeInteger

/-! Records as object spreads rebuild them: a field written again keeps its place, a new one goes
to the end, a field left out leaves the others where they were. -/

namespace Harness.Foundation

namespace Json

def setField (fields : List (String × Json)) (key : String) (value : Json) :
    List (String × Json) :=
  if hasOwn fields key then fields.map fun field => if field.1 = key then (key, value) else field
  else fields ++ [(key, value)]

/-- `{ ...value, ...updates }`. -/
def spread (value : Json) (updates : List (String × Json)) : Json :=
  .obj (updates.foldl (fun fields update => setField fields update.1 update.2)
    (value.fields?.getD []))

def without (fields : List (String × Json)) (keys : List String) : List (String × Json) :=
  fields.filter fun field => decide (field.1 ∉ keys)

def hasOnlyKeys (record : List (String × Json)) (required optional : List String) : Bool :=
  record.all (fun field => decide (field.1 ∈ required ++ optional))
    && required.all fun key => hasOwn record key

theorem lookup_map_key (fields : List (String × Json)) (key : String) (value : Json)
    (other : String) :
    (fields.map fun field => if field.1 = key then (key, value) else field).lookup other =
      if other = key then (fields.lookup key).map fun _ => value else fields.lookup other := by
  induction fields with
  | nil => simp
  | cons field fields ih =>
    obtain ⟨k, v⟩ := field
    rw [List.map_cons, List.lookup_cons]
    by_cases hk : k = key
    · subst hk
      by_cases hother : other = k
      · simp [hother]
      · simp [hother, ih, List.lookup_cons, beq_eq_false_iff_ne.mpr hother]
    · by_cases hother : other = key
      · subst hother
        simp [hk, ih, List.lookup_cons, beq_eq_false_iff_ne.mpr (Ne.symm hk)]
      · simp [hk, hother, ih, List.lookup_cons]

theorem lookup_setField (fields : List (String × Json)) (key : String) (value : Json)
    (other : String) :
    (setField fields key value).lookup other =
      if other = key then some value else fields.lookup other := by
  unfold setField hasOwn
  cases hfound : fields.lookup key with
  | some found => simp [lookup_map_key, hfound]
  | none =>
    simp only [Option.isSome_none, Bool.false_eq_true, if_false, List.lookup_append]
    by_cases hother : other = key
    · simp [hother, hfound]
    · simp [hother, List.lookup_cons, beq_eq_false_iff_ne.mpr hother]

theorem get?_spread_nil (value : Json) (key : String) : (spread value []).get? key = value.get? key := by
  cases value <;> rfl

theorem get?_spread_last (value : Json) (updates : List (String × Json)) (key : String)
    (written : Json) (key' : String) :
    (spread value (updates ++ [(key, written)])).get? key' =
      if key' = key then some written else (spread value updates).get? key' := by
  simp only [spread, List.foldl_append, List.foldl_cons, List.foldl_nil, get?_obj, lookup_setField]

end Json

end Harness.Foundation
