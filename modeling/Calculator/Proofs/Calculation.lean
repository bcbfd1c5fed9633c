import Calculator.Calculation
import Calculator.Proofs.Forest.Formed

/-!
# What can go wrong with a value

The value of a forest fails exactly if one of its numbers is malformed, and then it is the first
of them that is to blame: operands are evaluated in the order in which they are written. The
numbers of a forest are those of the tokens it was formed from, so the tokens alone say whether
a calculation fails on a number, and on which (`Calculation.ofText_eq_error_value_iff`).
-/

namespace Calculator

deriving instance DecidableEq for Calculation

/-- The number that a token is. -/
def Located.number? (t : Token) : Option (Located String) :=
  match t.val with
  | .number literal => some ⟨literal, t.span⟩
  | _ => none

/-- The numbers among tokens, in order. -/
def numbersOf (ts : List Token) : List (Located String) := ts.filterMap Located.number?

theorem mem_numbersOf {ts : List Token} {n : Located String} :
    n ∈ numbersOf ts ↔ ⟨.number n.val, n.span⟩ ∈ ts := by
  constructor
  · intro h
    obtain ⟨⟨v, s⟩, ht, hn⟩ := List.mem_filterMap.mp h
    cases v with
    | number literal =>
        cases hn
        exact ht
    | op _ => cases hn
    | opening => cases hn
    | closing => cases hn
  · exact fun h => List.mem_filterMap.mpr ⟨_, h, rfl⟩

/-- What the first malformed number among some is blamed for. -/
def firstMalformed (ns : List (Located String)) : Option (Located ValueFault) :=
  (ns.find? fun n => (Number.valueOf? n.val.toList).isNone).map fun n =>
    ⟨.invalidNumber n.val, n.span⟩

theorem firstMalformed_append (ns ms : List (Located String)) :
    firstMalformed (ns ++ ms) = (firstMalformed ns).or (firstMalformed ms) := by
  rw [firstMalformed, List.find?_append, Option.map_or]
  rfl

/-- The number that is to blame is malformed, and none in front of it is. -/
theorem firstMalformed_eq_some_iff {ns : List (Located String)} {fault : Located ValueFault} :
    firstMalformed ns = some fault ↔ ∃ before n after, ns = before ++ n :: after ∧
      (∀ m ∈ before, (Number.valueOf? m.val.toList).isSome = true) ∧
      Number.valueOf? n.val.toList = none ∧ fault = ⟨.invalidNumber n.val, n.span⟩ := by
  rw [firstMalformed, Option.map_eq_some_iff]
  constructor
  · intro h
    obtain ⟨n, hn, rfl⟩ := h
    obtain ⟨hnone, before, after, rfl, hbefore⟩ := List.find?_eq_some_iff_append.mp hn
    refine ⟨before, n, after, rfl, ?_, Option.isNone_iff_eq_none.mp hnone, rfl⟩
    intro m hm
    simpa using hbefore m hm
  · intro h
    obtain ⟨before, n, after, rfl, hbefore, hnone, rfl⟩ := h
    refine ⟨n, List.find?_eq_some_iff_append.mpr ⟨by rw [hnone]; rfl, before, after, rfl, ?_⟩, rfl⟩
    intro m hm
    simpa using hbefore m hm

theorem exists_of_firstMalformed {ns : List (Located String)} {fault : Located ValueFault}
    (h : firstMalformed ns = some fault) :
    ∃ n ∈ ns, Number.valueOf? n.val.toList = none ∧ fault = ⟨.invalidNumber n.val, n.span⟩ := by
  obtain ⟨before, n, after, rfl, -, hnone, hfault⟩ := firstMalformed_eq_some_iff.mp h
  exact ⟨n, by simp, hnone, hfault⟩

/-- What fails whenever something is to blame, and has a value, has nothing to blame. -/
theorem eq_none_of_ok {ε α : Type} {result : Except ε α} {blamed : Option ε} {x : α}
    (h : ∀ fault, result = .error fault ↔ blamed = some fault) (hx : result = .ok x) :
    blamed = none := by
  cases hblamed : blamed with
  | none => rfl
  | some fault =>
      rw [(h fault).mpr hblamed] at hx
      cases hx

namespace Expr

/-- The numbers of an expression, in order. -/
def numbers : Expr → List (Located String)
  | number s literal => [⟨literal, s⟩]
  | group _ inner => inner.numbers
  | binary _ _ lhs rhs => lhs.numbers ++ rhs.numbers

/-- **The first malformed number is to blame.** -/
theorem value_eq_error_iff {e : Expr} {fault : Located ValueFault} :
    e.value = .error fault ↔ firstMalformed e.numbers = some fault := by
  induction e generalizing fault with
  | number s literal =>
      rw [value, numbers, firstMalformed, List.find?_singleton]
      cases Number.valueOf? literal.toList with
      | some x => simp
      | none => simp
  | group s inner ih => exact ih
  | binary s op lhs rhs ih₁ ih₂ =>
      rw [value, numbers, firstMalformed_append]
      cases hlhs : lhs.value with
      | error f =>
          rw [ih₁.mp hlhs, Option.some_or, Option.some.injEq]
          exact ⟨Except.error.inj, congrArg Except.error⟩
      | ok x =>
          -- the right operand is looked at only when the left one has a value
          have hnone : firstMalformed lhs.numbers = none := eq_none_of_ok (fun _ => ih₁) hlhs
          rw [hnone, Option.none_or, ← ih₂]
          cases rhs.value with
          | error f => exact Iff.rfl
          | ok y =>
              constructor <;>
              · intro h
                cases h

end Expr

namespace Forest

theorem productFrom_eq_error_iff {f : Forest} {x : Float} {fault : Located ValueFault} :
    productFrom x f = .error fault ↔ firstMalformed (f.flatMap Expr.numbers) = some fault := by
  induction f generalizing x with
  | nil =>
      constructor <;>
      · intro h
        cases h
  | cons e f ih =>
      rw [productFrom, List.foldlM_cons, List.flatMap_cons, firstMalformed_append]
      cases he : e.value with
      | error fault' =>
          rw [Expr.value_eq_error_iff.mp he, Option.some_or, Option.some.injEq]
          exact ⟨Except.error.inj, congrArg Except.error⟩
      | ok y =>
          have hnone : firstMalformed e.numbers = none :=
            eq_none_of_ok (fun _ => Expr.value_eq_error_iff) he
          rw [hnone, Option.none_or]
          exact ih

theorem value_eq_error_iff {f : Forest} {fault : Located ValueFault} :
    Forest.value f = .error fault ↔ firstMalformed (f.flatMap Expr.numbers) = some fault := by
  cases f with
  | nil =>
      constructor <;>
      · intro h
        cases h
  | cons e f =>
      rw [← productFrom_eq_error_iff, value]
      cases productFrom 1.0 (e :: f) with
      | error fault' =>
          constructor <;>
          · intro h
            cases h
            rfl
      | ok x =>
          constructor <;>
          · intro h
            cases h

/-- Only where there is no tree is there no value. -/
theorem value_eq_none_iff {f : Forest} : Forest.value f = .ok none ↔ f = [] := by
  cases f with
  | nil => exact iff_of_true rfl rfl
  | cons e f =>
      refine iff_of_false ?_ (List.cons_ne_nil e f)
      intro h
      rw [value] at h
      cases hproduct : productFrom 1.0 (e :: f) <;>
      · rw [hproduct] at h
        cases h

end Forest

theorem numbersOf_append (us vs : List Token) :
    numbersOf (us ++ vs) = numbersOf us ++ numbersOf vs := List.filterMap_append

/-- The numbers of an operand are those of its tokens. -/
theorem Built.numbers_eq {l : Precedence} {e : Expr} {us : List Token} (h : Built l e us) :
    e.numbers = numbersOf us := by
  induction h with
  | number => rfl
  | @group o c e us _ ih =>
      show e.numbers = numbersOf (us ++ [⟨.closing, c⟩])
      rw [numbersOf_append, ih]
      exact (List.append_nil _).symm
  | @multiple s o c literal e us _ ih =>
      show ⟨literal, s⟩ :: e.numbers = ⟨literal, s⟩ :: numbersOf (us ++ [⟨.closing, c⟩])
      rw [numbersOf_append, ih]
      exact congrArg _ (List.append_nil _).symm
  | factor _ ih => exact ih
  | term _ ih => exact ih
  | product _ _ _ ih₁ ih₂ | sum _ _ _ ih₁ ih₂ =>
      rw [Expr.combine, Expr.numbers, ih₁, ih₂, numbersOf_append]
      rfl

theorem Formed.numbers_eq {f : Forest} {ts : List Token} (h : Formed f ts) :
    f.flatMap Expr.numbers = numbersOf ts := by
  induction h with
  | nil => rfl
  | cons he _ _ ih => rw [List.flatMap_cons, he.numbers_eq, ih, numbersOf_append]

/-- No tree is formed from no token only. -/
theorem Formed.eq_nil {ts : List Token} (h : Formed [] ts) : ts = [] := by
  cases h
  rfl

namespace Calculation

/-- A calculation goes through all stages; the first that fails decides. -/
theorem ofText_eq (text : String) :
    ofText text =
      match forestOf (tokensOf (itemsOf text)) with
      | .error fault => .error (.parse fault)
      | .ok forest =>
          match forest.value with
          | .error fault => .error (.value fault)
          | .ok value => .ok ⟨value, noticesOf (itemsOf text)⟩ := by
  simp only [ofText, record, Logged.value_bind, value_recordItems, value_recordForest]
  cases forestOf (tokensOf (itemsOf text)) with
  | error fault => rfl
  | ok forest =>
      simp only [Logged.value_bind, value_recordValue]
      cases forest.value <;> rfl

/-- A calculation fails on its tokens exactly if they form no forest, whatever their numbers. -/
theorem ofText_eq_error_parse_iff {text : String} {fault : Located ParseFault} :
    ofText text = .error (.parse fault) ↔ forestOf (tokensOf (itemsOf text)) = .error fault := by
  rw [ofText_eq]
  cases forestOf (tokensOf (itemsOf text)) with
  | error fault' => simp only [Except.error.injEq, Fault.parse.injEq]
  | ok trees =>
      simp only
      cases Forest.value trees <;> simp

/-- Only a text without tokens comes to nothing. -/
theorem ofText_eq_ok_none_iff {text : String} {notices : List Notice} :
    ofText text = .ok ⟨none, notices⟩ ↔
      tokensOf (itemsOf text) = [] ∧ notices = noticesOf (itemsOf text) := by
  rw [ofText_eq]
  constructor
  · intro h
    cases hread : forestOf (tokensOf (itemsOf text)) with
    | error fault =>
        rw [hread] at h
        cases h
    | ok trees =>
        rw [hread] at h
        simp only at h
        cases hvalue : Forest.value trees with
        | error fault =>
            rw [hvalue] at h
            cases h
        | ok value =>
            rw [hvalue] at h
            cases h
            have hnone : trees = [] := Forest.value_eq_none_iff.mp hvalue
            subst hnone
            exact ⟨(forestOf_eq_ok_iff.mp hread).eq_nil, rfl⟩
  · intro h
    obtain ⟨hnil, rfl⟩ := h
    have hread : forestOf [] = .ok [] := forestOf_eq_ok_iff.mpr .nil
    rw [hnil, hread]
    rfl

/-- **A calculation fails on a number** exactly if its tokens form a forest, and one of its numbers
is malformed; the first of these is to blame. -/
theorem ofText_eq_error_value_iff {text : String} {fault : Located ValueFault} :
    ofText text = .error (.value fault) ↔
      (∃ trees, forestOf (tokensOf (itemsOf text)) = .ok trees) ∧
        firstMalformed (numbersOf (tokensOf (itemsOf text))) = some fault := by
  rw [ofText_eq]
  cases hread : forestOf (tokensOf (itemsOf text)) with
  | error fault' =>
      constructor
      · intro h
        cases h
      · rintro ⟨⟨trees, htrees⟩, -⟩
        cases htrees
  | ok trees =>
      rw [← (forestOf_eq_ok_iff.mp hread).numbers_eq, ← Forest.value_eq_error_iff]
      simp only
      cases hvalue : Forest.value trees with
      | error fault' =>
          constructor
          · intro h
            cases h
            exact ⟨⟨trees, rfl⟩, rfl⟩
          · rintro ⟨-, h⟩
            cases h
            rfl
      | ok value =>
          constructor
          · intro h
            cases h
          · rintro ⟨-, h⟩
            cases h

end Calculation

end Calculator
