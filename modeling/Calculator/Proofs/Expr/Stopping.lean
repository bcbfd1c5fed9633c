import Calculator.Proofs.Expr.Reading

/-!
# Where the reading of an expression stops

Whatever tokens have been read, some further tokens make an expression of them: an operand
if one is due, and a closing parenthesis for every one that is open (`Holds.exists_built`).
So when reading stops, it is the next token that is wrong, or the end. The fault says which,
and `Blames` says what each fault means in terms of the tokens alone.
-/

namespace Calculator

/-- Symbols in which every parenthesis has its partner. -/
inductive Balanced : List Symbol → Prop
  | nil : Balanced []
  | other {s : Symbol} {u : List Symbol} (hopening : s ≠ .opening) (hclosing : s ≠ .closing)
      (hu : Balanced u) : Balanced (s :: u)
  | nested {u v : List Symbol} (hu : Balanced u) (hv : Balanced v) :
      Balanced (.opening :: (u ++ .closing :: v))

/-- What a fault says of the tokens `taken`, which have been read, of the tokens `rest`, which
have not, and of the place `last` where all of them end. The parenthesis that is blamed for
staying open is the last one without a partner: all behind it is balanced. -/
def Located.Blames (fault : Located ParseFault) (last : Span) (taken rest : List Token) : Prop :=
  match fault.val with
  | .expectedAtom found => ∃ t ts, rest = t :: ts ∧ t.val.begins = false ∧
      found = t.val.text ∧ fault.span = t.span
  | .unexpectedEnd => rest = [] ∧ fault.span = last
  | .unclosedGroup =>
      (∃ before after, taken = before ++ ⟨.opening, fault.span⟩ :: after ∧
        Balanced (after.map Located.val)) ∧
      ∀ t ∈ rest.head?, t.val ≠ .closing ∧ ∀ o, t.val ≠ .op o

namespace Balanced

theorem append {u v : List Symbol} (hu : Balanced u) (hv : Balanced v) : Balanced (u ++ v) := by
  induction hu with
  | nil => exact hv
  | other hopening hclosing _ ih => exact .other hopening hclosing ih
  | @nested u w hu _ _ ih =>
      rw [List.cons_append, List.append_assoc, List.cons_append]
      exact .nested hu ih

theorem group {u : List Symbol} (hu : Balanced u) : Balanced (.opening :: (u ++ [.closing])) :=
  .nested hu .nil

theorem append_op {u v : List Symbol} (hu : Balanced u) (o : Op) (hv : Balanced v) :
    Balanced (u ++ .op o :: v) :=
  hu.append (.other Symbol.noConfusion Symbol.noConfusion hv)

end Balanced

theorem Built.balanced {l : Precedence} {e : Expr} {us : List Token} (h : Built l e us) :
    Balanced (us.map Located.val) := by
  induction h with
  | number => exact .other Symbol.noConfusion Symbol.noConfusion .nil
  | group _ ih =>
      rw [List.map_cons, List.map_append]
      exact ih.group
  | multiple _ ih =>
      rw [List.map_cons, List.map_cons, List.map_append]
      exact .other Symbol.noConfusion Symbol.noConfusion ih.group
  | factor _ ih => exact ih
  | term _ ih => exact ih
  | product _ _ _ ih₁ ih₂ | sum _ _ _ ih₁ ih₂ =>
      rw [List.map_append, List.map_cons]
      exact ih₁.append_op _ ih₂

theorem Waiting.Holds.balanced {p : Precedence} {w : Waiting} {us : List Token}
    (h : w.Holds p us) : Balanced (us.map Located.val) := by
  cases h with
  | nothing => exact .nil
  | operand he _ =>
      rw [List.map_append, List.map_cons]
      exact he.balanced.append_op _ .nil

theorem Pending.Holds.balanced {p : Pending} {us : List Token} (h : p.Holds us) :
    Balanced (us.map Located.val) := by
  cases h with
  | mk hsum hproduct =>
      rw [List.map_append]
      exact hsum.balanced.append hproduct.balanced

/-- The innermost open parenthesis is the last token that led to it. -/
theorem Opening.Hold.exists_before {o : Opening} {os : List Opening} {us : List Token}
    (h : Opening.Hold (o :: os) us) : ∃ before, us = before ++ [⟨.opening, o.span⟩] := by
  cases h with
  | group => exact ⟨_, rfl⟩
  | @multiple s t literal p os us vs _ _ =>
      refine ⟨us ++ vs ++ [⟨.number literal, t⟩], ?_⟩
      rw [List.append_assoc (us ++ vs)]
      rfl

/-- With all open parentheses closed behind an operand, an expression is complete. -/
theorem Opening.Hold.exists_built {os : List Opening} {p : Pending} {e : Expr}
    {us vs ws : List Token} (hos : Opening.Hold os us) (hp : p.Holds vs) (he : Built .atom e ws) :
    ∃ d more, Built .sum d (us ++ vs ++ ws ++ more) := by
  induction os generalizing p e us vs ws with
  | nil =>
      cases hos
      refine ⟨p.total e, [], ?_⟩
      rw [List.append_nil]
      exact hp.total he
  | cons o os ih =>
      -- closing the innermost group leaves one parenthesis less, and the group as operand
      obtain ⟨xs, ys, zs, hxyz, hos', houtside, hclosed⟩ := hos.close (hp.total he) default
      obtain ⟨d, more, hd⟩ := ih hos' houtside hclosed
      refine ⟨d, ⟨.closing, default⟩ :: more, ?_⟩
      have hassoc : us ++ vs ++ ws ++ ⟨.closing, default⟩ :: more =
          us ++ (vs ++ ws) ++ [⟨.closing, default⟩] ++ more := by
        simp only [List.append_assoc, List.cons_append, List.nil_append]
      rw [hassoc, hxyz]
      exact hd

namespace Growth

/-- **Whatever has been read can be completed.** -/
theorem Holds.exists_built {g : Growth} {us : List Token} (h : g.Holds us) :
    ∃ d more, Built .sum d (us ++ more) := by
  cases h with
  | @due p os us vs hos hp =>
      have hnumber : Built .atom (.number default "0") [⟨.number "0", default⟩] := .number
      obtain ⟨d, more, hd⟩ := hos.exists_built hp hnumber
      refine ⟨d, ⟨.number "0", default⟩ :: more, ?_⟩
      rw [List.append_assoc _ _ more] at hd
      exact hd
  | behind hos hp he => exact hos.exists_built hp he

theorem run_of_halts {g : Growth} {last : Span} {outcome : Outcome} {ts : List Token}
    (h : g.Halts last outcome ts) : g.run last ts = (outcome, ts) := by
  cases ts with
  | nil => rw [run, h]
  | cons t ts =>
      have hstep : g.step t = .stop outcome := h
      rw [run, hstep]

/-- Where a token stops a run, the tokens behind it and the end play no part. -/
theorem Halts.of_cons {g : Growth} {last last' : Span} {outcome : Outcome} {t : Token}
    {ts ts' : List Token} (h : g.Halts last outcome (t :: ts)) :
    g.Halts last' outcome (t :: ts') := h

/-- Behind an operand, a run that fails leaves a parenthesis open. -/
theorem Halts.eq_unclosed {a : Expr} {p : Pending} {os : List Opening} {last : Span}
    {fault : Located ParseFault} {ts : List Token}
    (h : Growth.Halts ⟨some a, p, os⟩ last (.error fault) ts) :
    ∃ o os', os = o :: os' ∧ fault = ⟨.unclosedGroup, o.span⟩ ∧
      ∀ t ∈ ts.head?, t.val ≠ .closing ∧ ∀ o, t.val ≠ .op o := by
  have hfinish : Growth.finish ⟨some a, p, os⟩ a = .error fault := by
    cases ts with
    | nil => exact h.symm
    | cons t ts => exact (eq_finish_of_stepBehind h).symm
  cases os with
  | nil => cases hfinish
  | cons o os =>
      cases hfinish
      refine ⟨o, os, rfl, rfl, ?_⟩
      intro t ht
      cases ts with
      | nil => cases ht
      | cons t' ts =>
          cases ht
          obtain ⟨v, s⟩ := t
          -- with a parenthesis open, an operator and a closing one would have been taken
          cases v with
          | number => exact ⟨Symbol.noConfusion, fun _ => Symbol.noConfusion⟩
          | opening => exact ⟨Symbol.noConfusion, fun _ => Symbol.noConfusion⟩
          | op => cases h
          | closing => cases h

/-- **What a fault blames.** -/
theorem Halts.blames {g : Growth} {us ts : List Token} {last : Span}
    {fault : Located ParseFault} (hg : g.Holds us) (h : g.Halts last (.error fault) ts) :
    fault.Blames last us ts := by
  cases hg with
  | due =>
      cases ts with
      | nil =>
          cases h
          exact ⟨rfl, rfl⟩
      | cons t ts =>
          obtain ⟨v, s⟩ := t
          cases v with
          | number => cases h
          | opening => cases h
          | op o =>
              cases h
              exact ⟨_, ts, rfl, rfl, rfl, rfl⟩
          | closing =>
              cases h
              exact ⟨_, ts, rfl, rfl, rfl, rfl⟩
  | @behind e p os us vs ws hos hp he =>
      obtain ⟨o, os', rfl, rfl, hnext⟩ := h.eq_unclosed
      obtain ⟨before, rfl⟩ := hos.exists_before
      refine ⟨⟨before, vs ++ ws, ?_, ?_⟩, hnext⟩
      · simp only [List.append_assoc, List.cons_append, List.nil_append]
      · rw [List.map_append]
        exact hp.balanced.append he.balanced

end Growth

end Calculator
