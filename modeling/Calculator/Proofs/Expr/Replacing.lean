import Calculator.Proofs.Expr.Alike
import Calculator.Proofs.Expr.Canonical

/-!
# A group in the place of a node

Where a node stands, a group can stand as well: a group is an atom, and so holds together at least
as tightly as what it replaces. Only a number right in front of another group is more than an
operand, since the product it begins has no operator of its own. If the group is related to the
node, the whole is related to what it was (`Built.replaceable`).
-/

namespace Calculator

/-- Whether a node of a tree is a number that multiplies the group right behind it. -/
def Expr.IsMultiplier (e tree : Expr) : Prop :=
  e.isNumber = true ∧ ∃ s op rhs, op.isImplicit = true ∧ .binary s op e rhs ∈ tree.nodes

/-- Whether some of the tokens of a tree make the node `e`, and any group that is related to that
could stand in their place. -/
def Replaceable (r : Expr → Expr → Prop) (l : Precedence) (tree e : Expr) (us : List Token) :
    Prop :=
  ∃ before vs after, us = before ++ vs ++ after ∧ (∃ m, Built m e vs) ∧
    ∀ o c d ws, Built .sum d ws → r e (.group (o.join c) d) →
      ∃ tree', Built l tree' (before ++ ⟨.opening, o⟩ :: (ws ++ [⟨.closing, c⟩]) ++ after) ∧
        r tree tree'

theorem Expr.IsMultiplier.of_nodes {e d tree : Expr} (hd : ∀ f ∈ d.nodes, f ∈ tree.nodes)
    (h : e.IsMultiplier d) : e.IsMultiplier tree := by
  obtain ⟨hnumber, s, op, rhs, himplicit, hmem⟩ := h
  exact ⟨hnumber, s, op, rhs, himplicit, hd _ hmem⟩

namespace Replaceable

variable {r : Expr → Expr → Prop} {l m : Precedence} {tree d e : Expr} {us : List Token}

/-- In the place of a whole expression a group can stand. -/
theorem whole (h : Built l e us) : Replaceable r l e e us := by
  refine ⟨[], us, [], by simp, ⟨l, h⟩, ?_⟩
  intro o c d ws hd hrelated
  refine ⟨.group (o.join c) d, ?_, hrelated⟩
  rw [List.nil_append, List.append_nil]
  exact (Built.group hd).lift l.admits_atom

/-- What can be replaced in an operand can be replaced in what is made of the operand. -/
theorem up (h : Replaceable r l d e us) {ts : List Token} (front behind : List Token)
    (hts : ts = front ++ us ++ behind)
    (hup : ∀ d' us', Built l d' us' → r d d' →
      ∃ tree', Built m tree' (front ++ us' ++ behind) ∧ r tree tree') :
    Replaceable r m tree e ts := by
  obtain ⟨before, vs, after, rfl, hbuilt, hreplace⟩ := h
  refine ⟨front ++ before, vs, after ++ behind, ?_, hbuilt, ?_⟩
  · rw [hts]
    simp only [List.append_assoc]
  · intro o c f ws hf hrelated
    obtain ⟨d', hd', hdd'⟩ := hreplace o c f ws hf hrelated
    obtain ⟨tree', htree', hrelated'⟩ := hup d' _ hd' hdd'
    refine ⟨tree', ?_, hrelated'⟩
    simp only [List.append_assoc] at htree' ⊢
    exact htree'

end Replaceable

section

variable {r : Expr → Expr → Prop} (hr : Expr.Congruence r)

include hr

/-- The nodes of two operands with an operator between them. -/
theorem Replaceable.of_combine {l m n : Precedence} {f g e : Expr} {us vs : List Token}
    {op : Located Op} {t : Token} (h : Built l (f.combine op g) (us ++ t :: vs))
    (hlhs : ∀ f' us', Built m f' us' → Built l (f'.combine op g) (us' ++ t :: vs))
    (hrhs : ∀ g' vs', Built n g' vs' → Built l (f.combine op g') (us ++ t :: vs'))
    (ih₁ : e ∈ f.nodes → ¬ e.IsMultiplier f → Replaceable r m f e us)
    (ih₂ : e ∈ g.nodes → ¬ e.IsMultiplier g → Replaceable r n g e vs)
    (he : e ∈ (f.combine op g).nodes) (hnot : ¬ e.IsMultiplier (f.combine op g)) :
    Replaceable r l (f.combine op g) e (us ++ t :: vs) := by
  have hnodes : ∀ d, d ∈ f.nodes ∨ d ∈ g.nodes → d ∈ (f.combine op g).nodes := by
    intro d hd
    exact List.mem_cons_of_mem _ (List.mem_append.mpr hd)
  rcases List.mem_cons.mp he with rfl | he
  · exact .whole h
  rcases List.mem_append.mp he with he | he
  · have hnot' : ¬ e.IsMultiplier f := fun hmul =>
      hnot (hmul.of_nodes fun d hd => hnodes d (.inl hd))
    refine (ih₁ he hnot').up [] (t :: vs) rfl ?_
    intro f' us' hf' hrelated
    exact ⟨_, hlhs f' us' hf', hr.binary _ _ rfl hrelated (hr.refl g)⟩
  · have hnot' : ¬ e.IsMultiplier g := fun hmul =>
      hnot (hmul.of_nodes fun d hd => hnodes d (.inr hd))
    refine (ih₂ he hnot').up (us ++ [t]) [] (by simp) ?_
    intro g' vs' hg' hrelated
    refine ⟨f.combine op g', ?_, hr.binary _ _ rfl (hr.refl f) hrelated⟩
    simpa using hrhs g' vs' hg'

/-- **A group in the place of a node**, other than a number that multiplies a group, makes a tree
that is related to what it was. -/
theorem Built.replaceable {l : Precedence} {tree e : Expr} {us : List Token}
    (h : Built l tree us) (he : e ∈ tree.nodes) (hnot : ¬ e.IsMultiplier tree) :
    Replaceable r l tree e us := by
  -- on how the tree is built: the node is the whole, or it can be replaced in an operand
  induction h with
  | number =>
      cases List.mem_singleton.mp he
      exact .whole .number
  | @group o c inner us hinner ih =>
      rcases List.mem_cons.mp he with rfl | he
      · exact .whole (.group hinner)
      have hnot' : ¬ e.IsMultiplier inner := fun hmul =>
        hnot (hmul.of_nodes fun d hd => List.mem_cons_of_mem _ hd)
      refine (ih he hnot').up [⟨.opening, o⟩] [⟨.closing, c⟩] rfl ?_
      intro d us' hd hrelated
      exact ⟨_, .group hd, hr.group _ _ hrelated⟩
  | @multiple s o c literal inner us hinner ih =>
      have himplicit : Located.isImplicit ⟨.mul, .emptyAt o.lo⟩ = true := isImplicit_emptyAt o.lo
      rcases List.mem_cons.mp he with rfl | he
      · exact .whole (.multiple hinner)
      rcases List.mem_cons.mp he with rfl | he
      · -- the number is what the group is multiplied with
        exact absurd ⟨rfl, _, _, _, himplicit, Expr.mem_nodes_self _⟩ hnot
      rcases List.mem_cons.mp he with rfl | he
      · -- the group itself makes room for another group
        refine ⟨[⟨.number literal, s⟩], _, [], (List.append_nil _).symm, ⟨_, .group hinner⟩, ?_⟩
        intro o' c' d ws hd hrelated
        refine ⟨(Expr.number s literal).combine ⟨.mul, .emptyAt o'.lo⟩ (.group (o'.join c') d), ?_,
          hr.binary _ _ rfl (hr.refl _) hrelated⟩
        rw [List.append_nil]
        exact .multiple hd
      · have hnot' : ¬ e.IsMultiplier inner := fun hmul =>
          hnot (hmul.of_nodes fun d hd =>
            List.mem_cons_of_mem _ (List.mem_cons_of_mem _ (List.mem_cons_of_mem _ hd)))
        refine (ih he hnot').up [⟨.number literal, s⟩, ⟨.opening, o⟩] [⟨.closing, c⟩] rfl ?_
        intro d us' hd hrelated
        exact ⟨_, .multiple hd, hr.binary _ _ rfl (hr.refl _) (hr.group _ _ hrelated)⟩
  | factor _ ih =>
      refine (ih he hnot).up [] [] (by simp) fun d us' hd hrelated => ⟨d, ?_, hrelated⟩
      rw [List.nil_append, List.append_nil]
      exact .factor hd
  | term _ ih =>
      refine (ih he hnot).up [] [] (by simp) fun d us' hd hrelated => ⟨d, ?_, hrelated⟩
      rw [List.nil_append, List.append_nil]
      exact .term hd
  | product hlhs ho hrhs ih₁ ih₂ =>
      exact .of_combine hr (.product hlhs ho hrhs) (fun _ _ h => .product h ho hrhs)
        (fun _ _ h => .product hlhs ho h) ih₁ ih₂ he hnot
  | sum hlhs ho hrhs ih₁ ih₂ =>
      exact .of_combine hr (.sum hlhs ho hrhs) (fun _ _ h => .sum h ho hrhs)
        (fun _ _ h => .sum hlhs ho h) ih₁ ih₂ he hnot

end

end Calculator
