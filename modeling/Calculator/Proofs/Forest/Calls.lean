import Calculator.Proofs.Independence
import Mathlib.Logic.Function.Iterate

/-!
# Reading expression by expression

A forest can be read by asking for one expression after the other. Nothing is done to a feed when a
call fails: the next call goes on where reading has stopped. Still the calls come to an end. Each of
them takes a token, except where the token that it begins with cannot begin an expression; there all
further calls stop in the same way (`Feed.calls_progress`).
-/

namespace Calculator

namespace Feed

/-- What a call of `next?` leaves. Where no token is left, nothing is taken. -/
def advance (f : Feed) : Feed :=
  match f.next? with
  | none => f
  | some (_, g) => g

/-- What some calls leave. -/
def after (f : Feed) (k : Nat) : Feed := advance^[k] f

/-- What the call behind `k` others comes to. -/
def answer (f : Feed) (k : Nat) : Option Outcome := (f.after k).next?.map Prod.fst

/-- How many tokens some calls take. -/
def taken (f : Feed) (k : Nat) : Nat := f.rest.length - (f.after k).rest.length

/-- Whether all calls from some call on come to nothing, or all stop at one token that cannot begin
an expression. -/
def SettledFrom (f : Feed) (k : Nat) : Prop :=
  (∀ j ≥ k, f.answer j = none) ∨
    ∃ found s, ∀ j ≥ k, f.answer j = some (.error ⟨.expectedAtom found, s⟩)

/-! ## One call -/

theorem next?_eq_some_iff {f : Feed} {r : Outcome × Feed} :
    f.next? = some r ↔ f.rest ≠ [] ∧ f.expr = r := by
  rw [next?]
  cases f.rest <;> simp

theorem advance_of_next? {f g : Feed} {outcome : Outcome} (h : f.next? = some (outcome, g)) :
    f.advance = g := by
  rw [advance, h]

theorem advance_of_none {f : Feed} (h : f.next? = none) : f.advance = f := by
  rw [advance, h]

/-- No call gives a token back. -/
theorem rest_advance_suffix (f : Feed) : f.advance.rest <:+ f.rest := by
  cases h : f.next? with
  | none =>
      rewrite [advance_of_none h]
      exact List.suffix_rfl
  | some r =>
      rw [advance_of_next? h]
      exact rest_expr_suffix (next?_eq_some_iff.mp h).2

/-- A call that stops at a token which cannot begin an expression leaves that token. -/
theorem exists_of_expectedAtom {f g : Feed} {found : String} {s : Span}
    (h : f.next? = some (.error ⟨.expectedAtom found, s⟩, g)) :
    ∃ t ts, g.rest = t :: ts ∧ t.val.begins = false ∧ found = t.val.text ∧ s = t.span := by
  obtain ⟨us, k, -, hus, hhalts⟩ := Growth.exists_reads_of_run f.last {} f.rest
  obtain ⟨houtcome, rfl⟩ := Prod.mk.inj (next?_eq_some_iff.mp h).2
  rw [houtcome] at hhalts
  exact hhalts.blames (Growth.holds_empty.reads hus)

/-- Where a token cannot begin an expression, a call stops at once. -/
theorem next?_of_not_begins {f : Feed} {t : Token} {ts : List Token} (hrest : f.rest = t :: ts)
    (ht : t.val.begins = false) :
    f.next? = some (.error ⟨.expectedAtom t.val.text, t.span⟩, f) := by
  obtain ⟨last, rest⟩ := f
  obtain ⟨v, s⟩ := t
  cases hrest
  cases v with
  | number literal => cases ht
  | opening => cases ht
  | op o => rfl
  | closing => rfl

/-- **A call that stops at such a token is followed by the same call.** -/
theorem next?_of_expectedAtom {f g : Feed} {found : String} {s : Span}
    (h : f.next? = some (.error ⟨.expectedAtom found, s⟩, g)) :
    g.next? = some (.error ⟨.expectedAtom found, s⟩, g) := by
  obtain ⟨t, ts, hrest, ht, rfl, rfl⟩ := exists_of_expectedAtom h
  exact next?_of_not_begins hrest ht

/-- **Every other call takes a token.** -/
theorem length_rest_lt_of_next? {f g : Feed} {outcome : Outcome}
    (h : f.next? = some (outcome, g))
    (houtcome : ∀ found s, outcome ≠ .error ⟨.expectedAtom found, s⟩) :
    g.rest.length < f.rest.length := by
  obtain ⟨hne, hexpr⟩ := next?_eq_some_iff.mp h
  obtain ⟨us, k, hus, hreads, hhalts⟩ := Growth.exists_reads_of_run f.last {} f.rest
  obtain ⟨hrun, rfl⟩ := Prod.mk.inj hexpr
  cases hreads with
  | cons =>
      have hlength := congrArg List.length hus
      simp only [List.length_append, List.length_cons] at hlength
      simp only
      omega
  | nil =>
      -- nothing has been read: the first token stopped the call
      rw [List.nil_append] at hus
      rw [← hus, hrun] at hhalts
      cases hrest : f.rest with
      | nil => exact absurd hrest hne
      | cons t ts =>
          rw [hrest] at hhalts
          obtain ⟨v, s⟩ := t
          cases v with
          | number literal => cases hhalts
          | opening => cases hhalts
          | op o => cases hhalts; exact absurd rfl (houtcome _ _)
          | closing => cases hhalts; exact absurd rfl (houtcome _ _)

/-- A call takes the first tree of a forest and leaves the others. -/
theorem next?_of_forest {f : Feed} {e : Expr} {trees : Forest} (h : f.forest.1 = .ok (e :: trees)) :
    f.next? = some (.ok e, f.advance) ∧ f.advance.forest.1 = .ok trees := by
  have hne : f.rest ≠ [] := by
    intro hnil
    obtain ⟨last, rest⟩ := f
    cases hnil
    rw [forest_of_empty] at h
    cases h
  match hexpr : f.expr with
  | (.error fault, g) =>
      rw [forest_of_fault hne hexpr] at h
      cases h
  | (.ok d, g) =>
      have hnext : f.next? = some (.ok d, g) := next?_eq_some_iff.mpr ⟨hne, hexpr⟩
      rw [forest_of_expr hexpr] at h
      rw [advance_of_next? hnext, hnext]
      cases hrest : g.forest.1 with
      | error fault =>
          rw [hrest] at h
          cases h
      | ok others =>
          rw [hrest] at h
          cases h
          exact ⟨rfl, rfl⟩

/-! ## Any number of calls -/

theorem after_succ (f : Feed) (k : Nat) : f.after (k + 1) = (f.after k).advance :=
  Function.iterate_succ_apply' advance k f

theorem after_succ_eq (f : Feed) (k : Nat) : f.after (k + 1) = f.advance.after k :=
  Function.iterate_succ_apply advance k f

theorem answer_succ (f : Feed) (k : Nat) : f.answer (k + 1) = f.advance.answer k := by
  rw [answer, answer, after_succ_eq]

theorem answer_zero (f : Feed) : f.answer 0 = f.next?.map Prod.fst := rfl

/-- What a call comes to, it comes to on the way to what it leaves. -/
theorem next?_of_answer {f : Feed} {k : Nat} {outcome : Outcome} (h : f.answer k = some outcome) :
    (f.after k).next? = some (outcome, f.after (k + 1)) := by
  obtain ⟨⟨outcome', g⟩, hnext, houtcome⟩ := Option.map_eq_some_iff.mp h
  cases houtcome
  rw [after_succ, advance_of_next? hnext, hnext]

/-- Where a call changes nothing, no further call does. -/
theorem after_of_advance_eq {f : Feed} (h : f.advance = f) (k : Nat) : f.after k = f :=
  Function.iterate_fixed h k

theorem rest_after_suffix (f : Feed) (k : Nat) : (f.after k).rest <:+ f.rest := by
  induction k with
  | zero => exact List.suffix_rfl
  | succ k ih =>
      rw [after_succ]
      exact (rest_advance_suffix _).trans ih

theorem taken_le_succ (f : Feed) (k : Nat) : f.taken k ≤ f.taken (k + 1) := by
  have hle : (f.after k).advance.rest.length ≤ (f.after k).rest.length :=
    (rest_advance_suffix _).length_le
  rw [taken, taken, after_succ]
  omega

/-- **A call takes a token**, unless it stops at one that cannot begin an expression. -/
theorem taken_lt_succ {f : Feed} {k : Nat} {outcome : Outcome} (h : f.answer k = some outcome)
    (houtcome : ∀ found s, outcome ≠ .error ⟨.expectedAtom found, s⟩) :
    f.taken k < f.taken (k + 1) := by
  have hlt : (f.after (k + 1)).rest.length < (f.after k).rest.length :=
    length_rest_lt_of_next? (next?_of_answer h) houtcome
  have hle : (f.after k).rest.length ≤ f.rest.length := (rest_after_suffix f k).length_le
  rw [taken, taken]
  omega

/-- Behind a call that stops at a token which cannot begin an expression, all calls do. -/
theorem after_of_expectedAtom {f : Feed} {k : Nat} {found : String} {s : Span}
    (h : f.answer k = some (.error ⟨.expectedAtom found, s⟩)) {j : Nat} (hj : k < j) :
    f.after j = f.after (k + 1) ∧ f.answer j = f.answer k := by
  have hnext : (f.after (k + 1)).next? = some (.error ⟨.expectedAtom found, s⟩, f.after (k + 1)) :=
    next?_of_expectedAtom (next?_of_answer h)
  obtain ⟨i, rfl⟩ := Nat.exists_eq_add_of_lt hj
  have hafter : f.after (k + i + 1) = f.after (k + 1) := by
    have hsplit : f.after (k + i + 1) = (f.after (k + 1)).after i := by
      rw [after, after, after, ← Function.iterate_add_apply]
      congr 1
      omega
    rw [hsplit, after_of_advance_eq (advance_of_next? hnext)]
  refine ⟨hafter, ?_⟩
  rw [h, answer, hafter, hnext]
  rfl

theorem settledFrom_of_expectedAtom {f : Feed} {k : Nat} {found : String} {s : Span}
    (h : f.answer k = some (.error ⟨.expectedAtom found, s⟩)) : f.SettledFrom k := by
  refine .inr ⟨found, s, fun j hj => ?_⟩
  rcases Nat.eq_or_lt_of_le hj with rfl | hlt
  · exact h
  · rw [(after_of_expectedAtom h hlt).2, h]

theorem settledFrom_zero_of_none {f : Feed} (h : f.next? = none) : f.SettledFrom 0 := by
  refine .inl fun j _ => ?_
  rw [answer, after_of_advance_eq (advance_of_none h), h]
  rfl

theorem SettledFrom.of_advance {f : Feed} {k : Nat} (h : f.advance.SettledFrom k) :
    f.SettledFrom (k + 1) := by
  have hlater (j : Nat) (hj : j ≥ k + 1) : ∃ i ≥ k, f.answer j = f.advance.answer i := by
    cases j with
    | zero => omega
    | succ i => exact ⟨i, by omega, answer_succ f i⟩
  refine h.imp (fun hnone j hj => ?_) (fun herror => ?_)
  · obtain ⟨i, hi, heq⟩ := hlater j hj
    rw [heq, hnone i hi]
  · obtain ⟨found, s, herror⟩ := herror
    refine ⟨found, s, fun j hj => ?_⟩
    obtain ⟨i, hi, heq⟩ := hlater j hj
    rw [heq, herror i hi]

/-- **The calls come to an end**, of all tokens or at one of them. -/
theorem exists_settledFrom (f : Feed) : ∃ k ≤ f.rest.length, f.SettledFrom k := by
  -- a call that does not stop for good leaves fewer tokens
  induction hn : f.rest.length using Nat.strongRecOn generalizing f with
  | _ n ih =>
      cases hnext : f.next? with
      | none => exact ⟨0, Nat.zero_le _, settledFrom_zero_of_none hnext⟩
      | some r =>
          obtain ⟨outcome, g⟩ := r
          have hfirst : f.answer 0 = some outcome := by
            rw [answer_zero, hnext]
            rfl
          by_cases hstop : ∃ found s, outcome = .error ⟨.expectedAtom found, s⟩
          · obtain ⟨found, s, rfl⟩ := hstop
            exact ⟨0, Nat.zero_le _, settledFrom_of_expectedAtom hfirst⟩
          · have hlt : g.rest.length < f.rest.length :=
              length_rest_lt_of_next? hnext fun found s h => hstop ⟨found, s, h⟩
            rw [← advance_of_next? hnext] at hlt
            obtain ⟨k, hk, hsettled⟩ := ih _ (hn ▸ hlt) f.advance rfl
            exact ⟨k + 1, by omega, hsettled.of_advance⟩

/-- **The calls take the trees of a forest one by one**, and leave the others. -/
theorem answers_of_forest {f : Feed} {trees : Forest} (h : f.forest.1 = .ok trees) {k : Nat}
    (hk : k ≤ trees.length) :
    (List.range k).map f.answer = (trees.take k).map (fun e => some (.ok e)) ∧
      (f.after k).forest.1 = .ok (trees.drop k) := by
  induction k generalizing f trees with
  | zero => exact ⟨rfl, h⟩
  | succ k ih =>
      cases trees with
      | nil => cases hk
      | cons e trees =>
          obtain ⟨hnext, hrest⟩ := next?_of_forest h
          obtain ⟨hanswers, hleft⟩ := ih hrest (Nat.le_of_succ_le_succ hk)
          constructor
          · rw [List.range_succ_eq_map, List.map_cons, List.map_map, List.take_succ_cons,
              List.map_cons, ← hanswers, answer_zero, hnext]
            simp only [Function.comp_def, Nat.succ_eq_add_one, answer_succ]
            rfl
          · rw [after_succ_eq, hleft, List.drop_succ_cons]

/-- **Calls of `next?` make progress.** The place of the next token never goes back, and never
beyond the end. A call takes at least one token, unless it stops at a token that cannot begin an
expression; then every later call stops there for the same reason, and none moves. So after at most
as many calls as there are tokens, each further call comes to nothing, or each stops at the same
token. And where all tokens form a forest, a number of calls gives as many of its trees, and reading
on from there gives the others. -/
theorem calls_progress (tokens : List Token) :
    let f := ofTokens tokens
    (∀ k, (f.after k).rest = tokens.drop (f.taken k) ∧ f.taken k ≤ f.taken (k + 1) ∧
      f.taken k ≤ tokens.length) ∧
    (∀ k outcome, f.answer k = some outcome →
      (∀ found s, outcome ≠ .error ⟨.expectedAtom found, s⟩) → f.taken k < f.taken (k + 1)) ∧
    (∀ k found s, f.answer k = some (.error ⟨.expectedAtom found, s⟩) →
      ∀ j > k, f.after j = f.after (k + 1) ∧ f.answer j = f.answer k) ∧
    (∃ k ≤ tokens.length, f.SettledFrom k) ∧
    ∀ trees, forestOf tokens = .ok trees → ∀ k ≤ trees.length,
      (List.range k).map f.answer = (trees.take k).map (fun e => some (.ok e)) ∧
        (f.after k).forest.1 = .ok (trees.drop k) := by
  intro f
  refine ⟨fun k => ⟨List.suffix_iff_eq_drop.mp (rest_after_suffix f k), taken_le_succ f k,
    Nat.sub_le _ _⟩, ?_, ?_, exists_settledFrom f, fun trees h k hk => answers_of_forest h hk⟩
  · exact fun k outcome hanswer houtcome => taken_lt_succ hanswer houtcome
  · exact fun k found s hanswer j hj => after_of_expectedAtom hanswer hj

/-- The tokens of `1 2+) 3`: the second call stops behind the `+`, and so does every further one.
The first two tokens alone form a forest. -/
theorem calls_progress_closing_behind_operator :
    let tokens : List Token := [⟨.number "1", .between 0 1⟩, ⟨.number "2", .between 2 3⟩,
      ⟨.op .add, .between 3 4⟩, ⟨.closing, .between 4 5⟩, ⟨.number "3", .between 6 7⟩]
    let numbers := tokens.take 2
    let one : Expr := .number (.between 0 1) "1"
    let two : Expr := .number (.between 2 3) "2"
    let stop : Outcome := .error ⟨.expectedAtom ")", .between 4 5⟩
    (ofTokens tokens).answer 0 = some (.ok one) ∧ (ofTokens tokens).answer 1 = some stop ∧
      (ofTokens tokens).taken 0 < (ofTokens tokens).taken 1 ∧
      (∀ j > 1, ((ofTokens tokens).after j).rest = tokens.drop 3 ∧
        (ofTokens tokens).answer j = some stop) ∧
      forestOf numbers = .ok [one, two] ∧ (ofTokens numbers).answer 0 = some (.ok one) ∧
      ((ofTokens numbers).after 1).forest.1 = .ok [two] := by
  intro tokens numbers one two stop
  have hfirst : (ofTokens tokens).answer 0 = some (.ok one) := by decide +kernel
  have hstop : (ofTokens tokens).answer 1 = some stop := by decide +kernel
  have hrest : ((ofTokens tokens).after 2).rest = tokens.drop 3 := by decide +kernel
  have hforest : forestOf numbers = .ok [one, two] := by decide +kernel
  obtain ⟨-, hmoves, hstays, -, -⟩ := calls_progress tokens
  obtain ⟨-, -, -, -, htrees⟩ := calls_progress numbers
  obtain ⟨hone, hothers⟩ := htrees _ hforest 1 (by decide)
  have hmoved := hmoves 0 _ hfirst (fun _ _ h => by cases h)
  refine ⟨hfirst, hstop, hmoved, fun j hj => ?_, hforest, ?_, hothers⟩
  · obtain ⟨hafter, hanswer⟩ := hstays 1 _ _ hstop j hj
    rw [hafter, hanswer]
    exact ⟨hrest, hstop⟩
  · exact List.head_eq_of_cons_eq hone

end Feed

end Calculator
