import Calculator.Proofs.Calculation
import Calculator.Proofs.Forest.Refusal
import Calculator.Proofs.Token.Partition

/-!
# What a fault quotes

The place of a fault is a part of the text, and what stands there is what the fault is about
(`Calculation.slice?_of_error`): a token, or nothing, if the tokens end too early.
-/

namespace Calculator

/-- The part of a text that a fault is about. Where the text ends too early there is nothing. -/
def Fault.quoted : Fault → List Char
  | parse ⟨.unclosedGroup, _⟩ => "(".toList
  | parse ⟨.unexpectedEnd, _⟩ => []
  | parse ⟨.expectedAtom found, _⟩ => found.toList
  | value ⟨.invalidNumber literal, _⟩ => literal.toList

/-- Behind a part of a text one can cut it, and nothing stands there. -/
theorem Span.slice?_emptyAt_hi {s : Span} {text part : List Char} (h : s.slice? text = some part) :
    (emptyAt s.hi).slice? text = some [] := by
  obtain ⟨before, after, rfl, -, hhi⟩ := slice?_eq_some_iff.mp h
  have hcut : byteLength (before ++ part) = s.hi := by rw [byteLength_append, hhi]
  exact slice?_eq_some_iff.mpr ⟨before ++ part, after, by rw [List.append_nil], hcut, hcut⟩

/-- The fault of tokens that are no forest blames what is to blame. -/
theorem forestOf_blames {tokens : List Token} {fault : Located ParseFault}
    (h : forestOf tokens = .error fault) :
    ∃ taken rest last, tokens = taken ++ rest ∧ tokens.getLast? = some last ∧
      fault.Blames (.emptyAt last.span.hi) taken rest := by
  have hread : (Feed.ofTokens tokens).forest = (.error fault, (Feed.ofTokens tokens).forest.2) :=
    Prod.ext h rfl
  obtain ⟨taken, htokens, -, hrefused⟩ := Feed.forest_eq_error_iff.mp hread
  have htokens : tokens = taken ++ (Feed.ofTokens tokens).forest.2.rest := htokens
  have hne : tokens ≠ [] := by
    rw [htokens]
    exact hrefused.ne_nil
  have hlast : tokens.getLast? = some (tokens.getLast hne) := List.getLast?_eq_some_getLast hne
  have hend : (Feed.ofTokens tokens).last = .emptyAt (tokens.getLast hne).span.hi := by
    rw [Feed.ofTokens, Feed.endOf, hlast]
  refine ⟨taken, _, tokens.getLast hne, htokens, hlast, ?_⟩
  rw [← hend]
  exact hrefused.blames

namespace Calculation

/-- A calculation fails because its tokens are no forest, or on a number among them. -/
theorem of_ofText_eq_error {text : String} {f : Fault} (h : ofText text = .error f) :
    (∃ fault, f = .parse fault ∧ forestOf (tokensOf (itemsOf text)) = .error fault) ∨
      ∃ literal s, f = .value ⟨.invalidNumber literal, s⟩ ∧
        ⟨.number literal, s⟩ ∈ tokensOf (itemsOf text) := by
  cases f with
  | parse fault => exact .inl ⟨fault, rfl, ofText_eq_error_parse_iff.mp h⟩
  | value fault =>
      obtain ⟨n, hn, -, rfl⟩ := exists_of_firstMalformed (ofText_eq_error_value_iff.mp h).2
      exact .inr ⟨n.val, n.span, rfl, mem_numbersOf.mp hn⟩

/-- **What a fault is about stands at its place.** -/
theorem slice?_of_error {text : String} {f : Fault} (h : ofText text = .error f) :
    f.span.slice? text.toList = some f.quoted := by
  obtain ⟨fault, rfl, hforest⟩ | ⟨literal, s, rfl, hmem⟩ := of_ofText_eq_error h
  · obtain ⟨taken, rest, last, htokens, hlast, hblames⟩ := forestOf_blames hforest
    obtain ⟨kind, s⟩ := fault
    cases kind with
    | unclosedGroup =>
        obtain ⟨⟨before, after, rfl, -⟩, -⟩ := hblames
        have hmem : ⟨.opening, s⟩ ∈ tokensOf (itemsOf text) := by
          rw [htokens]
          simp
        exact slice?_of_mem_tokensOf hmem
    | unexpectedEnd =>
        obtain ⟨-, rfl⟩ := hblames
        exact Span.slice?_emptyAt_hi (slice?_of_mem_tokensOf (List.mem_of_getLast? hlast))
    | expectedAtom found =>
        obtain ⟨t, ts, rfl, -, rfl, rfl⟩ := hblames
        have hmem : t ∈ tokensOf (itemsOf text) := by
          rw [htokens]
          simp
        exact slice?_of_mem_tokensOf hmem
  · exact slice?_of_mem_tokensOf hmem

/-- Where tokens end too early, the fault is right behind the last. -/
theorem span_of_unexpectedEnd {text : String} {s : Span}
    (h : ofText text = .error (.parse ⟨.unexpectedEnd, s⟩)) :
    ∃ last, (tokensOf (itemsOf text)).getLast? = some last ∧ s = .emptyAt last.span.hi := by
  obtain ⟨fault, hfault, hforest⟩ | ⟨literal, s, hfault, -⟩ := of_ofText_eq_error h
  · cases hfault
    obtain ⟨taken, rest, last, -, hlast, hblames⟩ := forestOf_blames hforest
    exact ⟨last, hlast, hblames.2⟩
  · cases hfault

end Calculation

end Calculator
