import Harness.Foundation.Double

/-! Conditions of SQL statements: their lexemes, the bindings of their placeholders, how they are
read, and their three-valued meaning on a row. -/

namespace Harness.Foundation.Sql

inductive Value
  | null
  | integer (value : Int)
  | real (value : Double)
  | text (value : String)
  deriving DecidableEq

inductive Token
  | word (name : String)
  | number (value : Int)
  | value (value : Value)
  | placeholder
  | comma
  | opening
  | closing
  | equals
  | atLeast
  | atMost
  deriving DecidableEq

inductive Operand
  | column (name : String)
  | castInteger (name : String)
  | value (value : Value)
  deriving DecidableEq

inductive Comparison
  | equals
  | atLeast
  | atMost
  deriving DecidableEq

inductive Condition
  | constant (value : Int)
  | compare (comparison : Comparison) (left right : Operand)
  | isNull (operand : Operand)
  | inList (operand : Operand) (items : List Operand)
  | and (left right : Condition)
  | or (left right : Condition)
  deriving DecidableEq

abbrev Truth := Option Bool

namespace Truth

def and : Truth → Truth → Truth
  | some false, _ => some false
  | _, some false => some false
  | some true, some true => some true
  | _, _ => none

def or : Truth → Truth → Truth
  | some true, _ => some true
  | _, some true => some true
  | some false, some false => some false
  | _, _ => none

end Truth

namespace Value

def le : Value → Value → Truth
  | .null, _ => none
  | _, .null => none
  | .integer a, .integer b => some (decide (a ≤ b))
  | .integer a, .real b => some ((Double.finite a).le b)
  | .real a, .integer b => some (a.le (.finite b))
  | .real a, .real b => some (a.le b)
  | .text a, .text b => some (decide (a ≤ b))
  | .text _, _ => some false
  | _, .text _ => some true

def equal (a b : Value) : Truth := (a.le b).and (b.le a)

def leadingInteger (text : String) : Int :=
  let digits (chars : List Char) : Int :=
    Nat.ofDigitChars 10 (chars.takeWhile Char.isDigit) 0
  match text.toList.dropWhile Char.isWhitespace with
  | '-' :: chars => -digits chars
  | '+' :: chars => digits chars
  | chars => digits chars

def clamp (value : Int) : Int := max (-2 ^ 63) (min value (2 ^ 63 - 1))

/-- `CAST(value AS INTEGER)`. -/
def castInteger : Value → Value
  | .null => .null
  | .integer n => .integer n
  | .real (.finite q) => .integer (clamp (if 0 ≤ q then ⌊q⌋ else ⌈q⌉))
  | .real (.infinite negative) => .integer (if negative then -2 ^ 63 else 2 ^ 63 - 1)
  | .real .nan => .null
  | .text content => .integer (clamp (leadingInteger content))

end Value

abbrev Row := String → Value

def Operand.eval (row : Row) : Operand → Value
  | .column name => row name
  | .castInteger name => (row name).castInteger
  | .value constant => constant

def Comparison.eval : Comparison → Value → Value → Truth
  | .equals, a, b => a.equal b
  | .atLeast, a, b => b.le a
  | .atMost, a, b => a.le b

def Condition.eval (row : Row) : Condition → Truth
  | .constant value => some (decide (value ≠ 0))
  | .compare comparison left right => comparison.eval (left.eval row) (right.eval row)
  | .isNull operand => some (decide (operand.eval row = .null))
  | .inList operand items =>
    items.foldr (fun item rest => ((operand.eval row).equal (item.eval row)).or rest) (some false)
  | .and left right => (left.eval row).and (right.eval row)
  | .or left right => (left.eval row).or (right.eval row)

/-- The text with its placeholders, in their order, replaced by the bindings: there are as many of
the one as of the other. -/
def bind : List Token → List Value → Option (List Token)
  | [], [] => some []
  | [], _ :: _ => none
  | token :: tokens, values =>
    if token = .placeholder then
      match values with
      | [] => none
      | value :: values => (bind tokens values).map (.value value :: ·)
    else (bind tokens values).map (token :: ·)

def readOperand : List Token → Option (Operand × List Token)
  | .word "CAST" :: .opening :: .word name :: .word "AS" :: .word "INTEGER" :: .closing :: rest =>
    some (.castInteger name, rest)
  | .word name :: rest => some (.column name, rest)
  | .value value :: rest => some (.value value, rest)
  | .number value :: rest => some (.value (.integer value), rest)
  | _ => none

def readItems : Nat → List Token → Option (List Operand × List Token)
  | 0, _ => none
  | fuel + 1, tokens =>
    match readOperand tokens with
    | some (item, .comma :: rest) =>
      (readItems fuel rest).map fun items => (item :: items.1, items.2)
    | some (item, .closing :: rest) => some ([item], rest)
    | _ => none

def readComparison (comparison : Comparison) (left : Operand) (tokens : List Token) :
    Option (Condition × List Token) :=
  (readOperand tokens).map fun right => (.compare comparison left right.1, right.2)

def readTail (fuel : Nat) (operand : Operand) : List Token → Option (Condition × List Token)
  | .equals :: rest => readComparison .equals operand rest
  | .atLeast :: rest => readComparison .atLeast operand rest
  | .atMost :: rest => readComparison .atMost operand rest
  | .word "IS" :: .word "NULL" :: rest => some (.isNull operand, rest)
  | .word "IN" :: .opening :: rest =>
    (readItems fuel rest).map fun items => (.inList operand items.1, items.2)
  | rest =>
    match operand with
    | .value (.integer value) => some (.constant value, rest)
    | _ => none

mutual

def readPrimary : Nat → List Token → Option (Condition × List Token)
  | 0, _ => none
  | fuel + 1, .opening :: tokens =>
    match readOr fuel tokens with
    | some (condition, .closing :: rest) => some (condition, rest)
    | _ => none
  | fuel + 1, tokens =>
    match readOperand tokens with
    | some (operand, rest) => readTail fuel operand rest
    | none => none

def readAnd : Nat → List Token → Option (Condition × List Token)
  | 0, _ => none
  | fuel + 1, tokens =>
    match readPrimary fuel tokens with
    | some (left, .word "AND" :: rest) =>
      (readAnd fuel rest).map fun right => (left.and right.1, right.2)
    | read => read

def readOr : Nat → List Token → Option (Condition × List Token)
  | 0, _ => none
  | fuel + 1, tokens =>
    match readAnd fuel tokens with
    | some (left, .word "OR" :: rest) =>
      (readOr fuel rest).map fun right => (left.or right.1, right.2)
    | read => read

end

def parse (tokens : List Token) : Option Condition :=
  match readOr (3 * tokens.length + 3) tokens with
  | some (condition, []) => some condition
  | _ => none

/-- Whether `WHERE` with this text and these bindings keeps a row; no text keeps every one. -/
def selects (tokens : List Token) (values : List Value) (row : Row) : Bool :=
  tokens.isEmpty ||
    decide (((bind tokens values).bind parse).bind (Condition.eval row) = some true)

namespace Condition

def Holds (row : Row) (condition : Condition) : Prop := condition.eval row = some true

def all : Condition → List Condition → Condition
  | first, [] => first
  | first, second :: rest => first.and (all second rest)

def any : Condition → List Condition → Condition
  | first, [] => first
  | first, second :: rest => first.or (any second rest)

end Condition

namespace Truth

theorem and_eq_true {a b : Truth} : a.and b = some true ↔ a = some true ∧ b = some true := by
  rcases a with _ | _ | _ <;> rcases b with _ | _ | _ <;> decide

theorem or_eq_true {a b : Truth} : a.or b = some true ↔ a = some true ∨ b = some true := by
  rcases a with _ | _ | _ <;> rcases b with _ | _ | _ <;> decide

end Truth

section Meaning

variable {row : Row}

theorem Condition.holds_all (first : Condition) (rest : List Condition) :
    (first.all rest).Holds row ↔ ∀ condition ∈ first :: rest, condition.Holds row := by
  induction rest generalizing first with
  | nil => rw [all, List.forall_mem_singleton]
  | cons second rest ih =>
    rw [List.forall_mem_cons, ← ih second]
    exact Truth.and_eq_true

theorem Condition.holds_any (first : Condition) (rest : List Condition) :
    (first.any rest).Holds row ↔ ∃ condition ∈ first :: rest, condition.Holds row := by
  induction rest generalizing first with
  | nil => simp only [any, List.mem_singleton, exists_eq_left]
  | cons second rest ih =>
    rw [List.exists_mem_cons_iff, ← ih second]
    exact Truth.or_eq_true

theorem Condition.holds_inList (operand : Operand) (items : List Operand) :
    (Condition.inList operand items).Holds row ↔
      ∃ item ∈ items, (operand.eval row).equal (item.eval row) = some true := by
  induction items with
  | nil =>
    constructor
    · intro h
      cases h
    · rintro ⟨item, hitem, -⟩
      cases hitem
  | cons item items ih =>
    rw [List.exists_mem_cons_iff, ← ih]
    exact Truth.or_eq_true

theorem Value.equal_text (a b : String) : (Value.text a).equal (.text b) = some true ↔ a = b := by
  have h : (Value.text a).equal (.text b) =
      Truth.and (some (decide (a ≤ b))) (some (decide (b ≤ a))) := rfl
  rw [h, Truth.and_eq_true, Option.some.injEq, Option.some.injEq, decide_eq_true_eq,
    decide_eq_true_eq]
  exact ⟨fun h => String.le_antisymm h.1 h.2, fun h => h ▸ ⟨String.le_refl a, String.le_refl a⟩⟩

theorem Value.equal_integer (a b : Int) :
    (Value.integer a).equal (.integer b) = some true ↔ a = b := by
  have h : (Value.integer a).equal (.integer b) =
      Truth.and (some (decide (a ≤ b))) (some (decide (b ≤ a))) := rfl
  rw [h, Truth.and_eq_true, Option.some.injEq, Option.some.injEq, decide_eq_true_eq,
    decide_eq_true_eq]
  exact ⟨fun h => Int.le_antisymm h.1 h.2, fun h => h ▸ ⟨Int.le_refl a, Int.le_refl a⟩⟩

end Meaning

section Binding

theorem bind_placeholder (tokens : List Token) (value : Value) (values : List Value) :
    bind (.placeholder :: tokens) (value :: values) =
      (bind tokens values).map (.value value :: ·) := rfl

theorem bind_cons {token : Token} (h : token ≠ .placeholder) (tokens : List Token)
    (values : List Value) : bind (token :: tokens) values = (bind tokens values).map (token :: ·) :=
  if_neg h

theorem bind_append {front back front' back' : List Token} {values values' : List Value}
    (hfront : bind front values = some front') (hback : bind back values' = some back') :
    bind (front ++ back) (values ++ values') = some (front' ++ back') := by
  induction front generalizing values front' with
  | nil =>
    cases values with
    | nil =>
      cases hfront
      exact hback
    | cons value values => cases hfront
  | cons token front ih =>
    by_cases htoken : token = .placeholder
    · subst htoken
      cases values with
      | nil => cases hfront
      | cons value values =>
        rw [bind_placeholder, Option.map_eq_some_iff] at hfront
        obtain ⟨bound, hbound, rfl⟩ := hfront
        rw [List.cons_append, List.cons_append, bind_placeholder, ih hbound]
        rfl
    · rw [bind_cons htoken, Option.map_eq_some_iff] at hfront
      obtain ⟨bound, hbound, rfl⟩ := hfront
      rw [List.cons_append, bind_cons htoken, ih hbound]
      rfl

theorem count_of_bind {tokens bound : List Token} {values : List Value}
    (h : bind tokens values = some bound) : tokens.count .placeholder = values.length := by
  induction tokens generalizing values bound with
  | nil =>
    cases values with
    | nil => rfl
    | cons value values => cases h
  | cons token tokens ih =>
    by_cases htoken : token = .placeholder
    · subst htoken
      cases values with
      | nil => cases h
      | cons value values =>
        rw [bind_placeholder, Option.map_eq_some_iff] at h
        obtain ⟨rest, hrest, rfl⟩ := h
        rw [List.count_cons_self, ih hrest, List.length_cons]
    · rw [bind_cons htoken, Option.map_eq_some_iff] at h
      obtain ⟨rest, hrest, rfl⟩ := h
      rw [List.count_cons_of_ne htoken, ih hrest]

end Binding

section Reading

def Boundary (rest : List Token) : Prop :=
  ∀ token ∈ rest.head?, token = .word "AND" ∨ token = .word "OR" ∨ token = .closing

def Reads (tokens : List Token) (condition : Condition) : Prop :=
  ∀ fuel rest, 3 * tokens.length ≤ fuel → Boundary rest →
    readPrimary fuel (tokens ++ rest) = some (condition, rest)

variable {tokens rest : List Token} {condition : Condition} {fuel : Nat}

theorem boundary_nil : Boundary [] := by
  intro token htoken
  cases htoken

theorem boundary_and : Boundary (.word "AND" :: rest) := by
  intro token htoken
  cases htoken
  exact Or.inl rfl

theorem boundary_or : Boundary (.word "OR" :: rest) := by
  intro token htoken
  cases htoken
  exact Or.inr (Or.inl rfl)

theorem boundary_closing : Boundary (.closing :: rest) := by
  intro token htoken
  cases htoken
  exact Or.inr (Or.inr rfl)

theorem Boundary.readTail_number (h : Boundary rest) (value : Int) :
    readTail fuel (.value (.integer value)) rest = some (.constant value, rest) := by
  cases rest with
  | nil => rfl
  | cons token rest => obtain rfl | rfl | rfl := h token rfl <;> rfl

theorem reads_number (value : Int) : Reads [.number value] (.constant value) := by
  intro fuel rest hfuel hrest
  cases fuel with
  | zero => cases hfuel
  | succ fuel => exact hrest.readTail_number value

theorem readOperand_column (column : String) (h : rest.head? ≠ some .opening) :
    readOperand (.word column :: rest) = some (.column column, rest) := by
  rw [readOperand]
  intro name rest' hrest hcolumn
  rw [hrest] at h
  exact h rfl

theorem readPrimary_column (column : String) (h : rest.head? ≠ some .opening) :
    readPrimary (fuel + 1) (.word column :: rest) = readTail fuel (.column column) rest := by
  rw [readPrimary]
  · rw [readOperand_column column h]
  · intro tokens heq
    cases heq

theorem reads_flag (column : String) (value : Int) :
    Reads [.word column, .equals, .number value]
      (.compare .equals (.column column) (.value (.integer value))) := by
  intro fuel rest hfuel hrest
  cases fuel with
  | zero => cases hfuel
  | succ fuel => exact readPrimary_column column nofun

theorem reads_isNull (column : String) :
    Reads [.word column, .word "IS", .word "NULL"] (.isNull (.column column)) := by
  intro fuel rest hfuel hrest
  cases fuel with
  | zero => cases hfuel
  | succ fuel => exact readPrimary_column column nofun

theorem reads_atLeast (column : String) (value : Value) :
    Reads [.word "CAST", .opening, .word column, .word "AS", .word "INTEGER", .closing, .atLeast,
      .value value] (.compare .atLeast (.castInteger column) (.value value)) := by
  intro fuel rest hfuel hrest
  cases fuel with
  | zero => cases hfuel
  | succ fuel => rfl

theorem reads_atMost (column : String) (value : Value) :
    Reads [.word "CAST", .opening, .word column, .word "AS", .word "INTEGER", .closing, .atMost,
      .value value] (.compare .atMost (.castInteger column) (.value value)) := by
  intro fuel rest hfuel hrest
  cases fuel with
  | zero => cases hfuel
  | succ fuel => rfl

theorem readItems_values (first : Value) (values : List Value) (fuel : Nat) (rest : List Token)
    (hfuel : values.length < fuel) :
    readItems fuel ([.comma].intercalate ((first :: values).map fun value => [.value value]) ++
      .closing :: rest) = some ((first :: values).map .value, rest) := by
  induction values generalizing first fuel with
  | nil =>
    cases fuel with
    | zero => cases hfuel
    | succ fuel => rfl
  | cons second values ih =>
    cases fuel with
    | zero => cases hfuel
    | succ fuel =>
      have hrest := ih second fuel (Nat.lt_of_succ_lt_succ hfuel)
      rw [List.map_cons, List.map_cons, List.intercalate_cons_cons, List.append_assoc,
        List.append_assoc]
      exact (congrArg (Option.map fun items => (.value first :: items.1, items.2)) hrest).trans rfl

theorem length_intercalate_comma (values : List Value) : values.length ≤
    ([Token.comma].intercalate (values.map fun value => [.value value])).length := by
  induction values with
  | nil => exact Nat.zero_le _
  | cons first values ih =>
    cases values with
    | nil => exact Nat.le.refl
    | cons second values =>
      rw [List.map_cons, List.map_cons, List.intercalate_cons_cons, List.length_append,
        List.length_append, List.length_cons]
      rw [List.map_cons] at ih
      simp only [List.length_singleton]
      omega

theorem reads_inList (column : String) {values : List Value} (hvalues : values ≠ []) :
    Reads ([.word column, .word "IN", .opening] ++
        ([.comma].intercalate (values.map fun value => [.value value]) ++ [.closing]))
      (.inList (.column column) (values.map .value)) := by
  intro fuel rest hfuel hrest
  obtain ⟨first, values, rfl⟩ := List.exists_cons_of_ne_nil hvalues
  have hlength := length_intercalate_comma (first :: values)
  simp only [List.length_append, List.length_cons, List.length_nil] at hfuel hlength
  cases fuel with
  | zero => omega
  | succ fuel =>
    have hitems := readItems_values first values fuel rest (by omega)
    rw [List.append_assoc, List.append_assoc, List.singleton_append]
    refine (readPrimary_column column (by intro h; cases h)).trans ?_
    exact (congrArg (Option.map fun items => (Condition.inList (.column column) items.1, items.2))
      hitems).trans rfl

abbrev Reading := List Token × Condition

variable (fuel rest) in
theorem readAnd_single (h : Reads tokens condition) (hfuel : 3 * tokens.length + 1 ≤ fuel)
    (hrest : Boundary rest) (hand : rest.head? ≠ some (.word "AND")) :
    readAnd fuel (tokens ++ rest) = some (condition, rest) := by
  cases fuel with
  | zero => cases hfuel
  | succ fuel =>
    have hread := h fuel rest (Nat.le_of_succ_le_succ hfuel) hrest
    rw [readAnd, hread]
    split
    · next left rest' heq =>
      cases heq
      exact absurd rfl hand
    · rfl

variable (fuel rest) in
theorem readAnd_join (first : Reading) (readings : List Reading)
    (h : ∀ reading ∈ first :: readings, Reads reading.1 reading.2) (hrest : Boundary rest)
    (hand : rest.head? ≠ some (.word "AND"))
    (hfuel : 3 * ([.word "AND"].intercalate ((first :: readings).map Prod.fst)).length + 1 ≤ fuel) :
    readAnd fuel ([.word "AND"].intercalate ((first :: readings).map Prod.fst) ++ rest) =
      some (first.2.all (readings.map Prod.snd), rest) := by
  induction readings generalizing first fuel with
  | nil =>
    rw [List.map_singleton, List.intercalate_singleton] at hfuel ⊢
    exact readAnd_single rest fuel (h first List.mem_cons_self) hfuel hrest hand
  | cons second readings ih =>
    rw [List.forall_mem_cons] at h
    rw [List.map_cons, List.map_cons, List.intercalate_cons_cons] at hfuel ⊢
    rw [List.append_assoc, List.append_assoc]
    simp only [List.length_append, List.length_singleton] at hfuel
    cases fuel with
    | zero => cases hfuel
    | succ fuel =>
      rw [← List.map_cons (f := Prod.fst)] at hfuel ⊢
      have hfirst := h.1 fuel (.word "AND" ::
        ([.word "AND"].intercalate ((second :: readings).map Prod.fst) ++ rest)) (by omega)
        boundary_and
      have hlater := ih fuel second h.2 (by omega)
      rw [readAnd]
      rw [List.singleton_append, hfirst]
      exact (congrArg (Option.map fun right => (first.2.and right.1, right.2)) hlater).trans rfl

variable (fuel rest) in
theorem readOr_join (first : Reading) (readings : List Reading)
    (h : ∀ reading ∈ first :: readings, Reads reading.1 reading.2)
    (hfuel : 3 * ([.word "OR"].intercalate ((first :: readings).map Prod.fst)).length + 2 ≤ fuel) :
    readOr fuel ([.word "OR"].intercalate ((first :: readings).map Prod.fst) ++ .closing :: rest) =
      some (first.2.any (readings.map Prod.snd), .closing :: rest) := by
  induction readings generalizing first fuel with
  | nil =>
    rw [List.map_singleton, List.intercalate_singleton] at hfuel ⊢
    cases fuel with
    | zero => cases hfuel
    | succ fuel =>
      have hread := readAnd_single (.closing :: rest) fuel (h first List.mem_cons_self)
        (Nat.le_of_succ_le_succ hfuel) boundary_closing nofun
      rw [readOr, hread]
      rfl
  | cons second readings ih =>
    rw [List.forall_mem_cons] at h
    rw [List.map_cons, List.map_cons, List.intercalate_cons_cons] at hfuel ⊢
    rw [List.append_assoc, List.append_assoc]
    simp only [List.length_append, List.length_singleton] at hfuel
    cases fuel with
    | zero => cases hfuel
    | succ fuel =>
      rw [← List.map_cons (f := Prod.fst)] at hfuel ⊢
      have hfirst := readAnd_single (.word "OR" ::
        ([.word "OR"].intercalate ((second :: readings).map Prod.fst) ++ .closing :: rest)) fuel h.1
        (by omega) boundary_or (by simp)
      have hlater := ih fuel second h.2 (by omega)
      rw [readOr]
      rw [List.singleton_append, hfirst]
      exact (congrArg (Option.map fun right => (first.2.or right.1, right.2)) hlater).trans rfl

theorem reads_group (first : Reading) (readings : List Reading)
    (h : ∀ reading ∈ first :: readings, Reads reading.1 reading.2) :
    Reads (.opening :: ([.word "OR"].intercalate ((first :: readings).map Prod.fst) ++ [.closing]))
      (first.2.any (readings.map Prod.snd)) := by
  intro fuel rest hfuel hrest
  simp only [List.length_append, List.length_cons, List.length_nil] at hfuel
  cases fuel with
  | zero => omega
  | succ fuel =>
    have hinner := readOr_join rest fuel first readings h
    rw [List.cons_append, List.append_assoc, List.singleton_append, readPrimary, hinner]
    simp only [List.map_cons] at hfuel ⊢
    omega

theorem parse_join (first : Reading) (readings : List Reading)
    (h : ∀ reading ∈ first :: readings, Reads reading.1 reading.2) :
    parse ([.word "AND"].intercalate ((first :: readings).map Prod.fst)) =
      some (first.2.all (readings.map Prod.snd)) := by
  have hread := readAnd_join [] _ first readings h boundary_nil (by intro h; cases h)
    (Nat.le_succ _)
  rw [List.append_nil] at hread
  rw [parse, readOr, hread]

end Reading

structure Clause where
  tokens : List Token
  values : List Value
  bound : List Token
  condition : Condition
  bind_eq : bind tokens values = some bound
  reads : Reads bound condition

namespace Clause

variable (clauses : List Clause)

def joined (connective : String) : List Token :=
  [.word connective].intercalate (clauses.map tokens)

def bindings : List Value := clauses.flatMap values

theorem bind_joined (connective : String) :
    bind (joined clauses connective) (bindings clauses) =
      some ([.word connective].intercalate (clauses.map bound)) := by
  induction clauses with
  | nil => rfl
  | cons first clauses ih =>
    cases clauses with
    | nil =>
      rw [joined, bindings, List.flatMap_singleton, List.map_singleton, List.map_singleton,
        List.intercalate_singleton, List.intercalate_singleton]
      exact first.bind_eq
    | cons second clauses =>
      rw [joined, bindings] at ih ⊢
      rw [List.map_cons, List.map_cons, List.map_cons, List.map_cons, List.intercalate_cons_cons,
        List.intercalate_cons_cons, ← List.map_cons, ← List.map_cons, List.flatMap_cons,
        ← List.nil_append (List.flatMap _ _)]
      apply bind_append
      · rw [← List.append_nil first.values]
        exact bind_append first.bind_eq rfl
      · exact ih

theorem count_joined (connective : String) :
    (joined clauses connective).count .placeholder = (bindings clauses).length :=
  count_of_bind (bind_joined clauses connective)

theorem tokens_ne_nil (clause : Clause) : clause.tokens ≠ [] := by
  intro h
  have hbind := clause.bind_eq
  have hreads := clause.reads
  rw [h] at hbind
  cases hvalues : clause.values with
  | nil =>
    rw [hvalues] at hbind
    rw [← Option.some.inj hbind] at hreads
    exact nomatch hreads 0 [] (Nat.le_refl 0) boundary_nil
  | cons value values =>
    rw [hvalues] at hbind
    cases hbind

theorem joined_ne_nil (connective : String) (first : Clause) :
    joined (first :: clauses) connective ≠ [] := by
  intro h
  cases clauses with
  | nil =>
    rw [joined, List.map_singleton, List.intercalate_singleton] at h
    exact first.tokens_ne_nil h
  | cons second clauses =>
    rw [joined, List.map_cons, List.map_cons, List.intercalate_cons_cons, List.append_assoc] at h
    exact first.tokens_ne_nil (List.append_eq_nil_iff.mp h).1

theorem selects_joined (row : Row) :
    selects (joined clauses "AND") (bindings clauses) row = true ↔
      ∀ clause ∈ clauses, clause.condition.Holds row := by
  cases clauses with
  | nil =>
    constructor
    · intro _ clause hclause
      cases hclause
    · intro _
      rfl
  | cons first clauses =>
    let reading (clause : Clause) : Reading := (clause.bound, clause.condition)
    have hparse := parse_join (reading first) (clauses.map reading) (by
      rw [← List.map_cons, List.forall_mem_map]
      intro clause _
      exact clause.reads)
    rw [← List.map_cons, List.map_map, List.map_map] at hparse
    have hempty : (joined (first :: clauses) "AND").isEmpty = false :=
      List.isEmpty_eq_false_iff.mpr (joined_ne_nil clauses "AND" first)
    rw [selects, hempty, Bool.false_or, decide_eq_true_eq, bind_joined, Option.bind_some]
    change (parse ([.word "AND"].intercalate
      ((first :: clauses).map (Prod.fst ∘ reading)))).bind _ = _ ↔ _
    rw [hparse, Option.bind_some]
    refine (Condition.holds_all _ _).trans ?_
    change (∀ c ∈ (first :: clauses).map condition, c.Holds row) ↔ _
    rw [List.forall_mem_map]

section Forms

def never : Clause :=
  ⟨[.number 0], [], [.number 0], .constant 0, rfl, reads_number 0⟩

def flag (column : String) (value : Int) : Clause :=
  ⟨[.word column, .equals, .number value], [], _, _, rfl, reads_flag column value⟩

def isNull (column : String) : Clause :=
  ⟨[.word column, .word "IS", .word "NULL"], [], _, _, rfl, reads_isNull column⟩

def atLeast (column : String) (value : Value) : Clause :=
  ⟨[.word "CAST", .opening, .word column, .word "AS", .word "INTEGER", .closing, .atLeast,
    .placeholder], [value], _, _, rfl, reads_atLeast column value⟩

def atMost (column : String) (value : Value) : Clause :=
  ⟨[.word "CAST", .opening, .word column, .word "AS", .word "INTEGER", .closing, .atMost,
    .placeholder], [value], _, _, rfl, reads_atMost column value⟩

def marks {α : Type} (items : List α) : List Token :=
  [.comma].intercalate (items.map fun _ => [.placeholder])

theorem bind_marks (values : List Value) :
    bind (marks values) values =
      some ([.comma].intercalate (values.map fun value => [.value value])) := by
  induction values with
  | nil => rfl
  | cons first values ih =>
    cases values with
    | nil => rfl
    | cons second values =>
      rw [marks, List.map_cons, List.map_cons, List.map_cons, List.map_cons,
        List.intercalate_cons_cons, List.intercalate_cons_cons, List.append_assoc,
        List.append_assoc]
      exact (congrArg (Option.map _) (congrArg (Option.map _) ih)).trans rfl

def inList (column : String) (values : List Value) (h : values ≠ []) : Clause where
  tokens := [.word column, .word "IN", .opening] ++ (marks values ++ [.closing])
  values := values
  bound := [.word column, .word "IN", .opening] ++
    ([.comma].intercalate (values.map fun value => [.value value]) ++ [.closing])
  condition := .inList (.column column) (values.map .value)
  bind_eq := by
    have hmarks := bind_append (bind_marks values) (rfl : bind [.closing] [] = some [.closing])
    rw [List.append_nil] at hmarks
    have hopening : bind [.word column, .word "IN", .opening] [] =
        some [.word column, .word "IN", .opening] := rfl
    exact bind_append hopening hmarks
  reads := reads_inList column h

def group (first : Clause) (rest : List Clause) : Clause where
  tokens := .opening :: (joined (first :: rest) "OR" ++ [.closing])
  values := bindings (first :: rest)
  bound := .opening :: ([.word "OR"].intercalate ((first :: rest).map bound) ++ [.closing])
  condition := first.condition.any (rest.map condition)
  bind_eq := by
    have hinner := bind_append (bind_joined (first :: rest) "OR")
      (rfl : bind [.closing] [] = some [.closing])
    rw [List.append_nil] at hinner
    exact bind_append (rfl : bind [.opening] [] = some [.opening]) hinner
  reads := by
    let reading (clause : Clause) : Reading := (clause.bound, clause.condition)
    have hreads := reads_group (reading first) (rest.map reading) (by
      rw [← List.map_cons, List.forall_mem_map]
      intro clause _
      exact clause.reads)
    rw [← List.map_cons, List.map_map, List.map_map] at hreads
    exact hreads

variable {row : Row}

theorem holds_never : ¬ never.condition.Holds row := nofun

theorem holds_group (first : Clause) (rest : List Clause) :
    (group first rest).condition.Holds row ↔
      ∃ clause ∈ first :: rest, clause.condition.Holds row := by
  refine (Condition.holds_any _ _).trans ?_
  change (∃ c ∈ (first :: rest).map condition, c.Holds row) ↔ _
  simp only [List.mem_map, exists_exists_and_eq_and]

theorem holds_inList (column : String) (values : List Value) (h : values ≠ []) :
    (inList column values h).condition.Holds row ↔
      ∃ value ∈ values, (row column).equal value = some true := by
  refine (Condition.holds_inList _ _).trans ?_
  simp only [List.mem_map, exists_exists_and_eq_and]
  rfl

theorem holds_isNull (column : String) :
    (isNull column).condition.Holds row ↔ row column = .null := by
  refine Option.some_inj.trans ?_
  exact decide_eq_true_iff

theorem holds_flag (column : String) (value : Int) :
    (flag column value).condition.Holds row ↔ (row column).equal (.integer value) = some true :=
  Iff.rfl

end Forms

end Clause

end Harness.Foundation.Sql
