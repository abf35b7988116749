import Mathlib.Dynamics.FixedPoints.Basic
import SurfaceGeometry.Proofs.Symbolic.Quantity
import SurfaceGeometry.Proofs.Symbolic.Rules

/-!
# How many passes simplification takes

A pass leaves a tree as it is or makes it lighter (`Expr.lightens_simplifyOnce`), where a product
and a quotient weigh more than what comes out of moving a constant to the left or a negation to the
outside (`Expr.weight`). So the passes come to a tree that they leave as it is, after a number of
them that the weight bounds. Simplification makes eight passes, and to stop early is the same
(`Expr.simplifyWithin_eq_iterate`), so it comes to that tree when eight passes are enough
(`Expr.isFixedPt_simplify_iff`).

No number of passes is enough for all trees. In `Expr.tower` a term cancels only after the pass in
which the floor below has become the same as the term, and the constants that this leaves are merged
in the next pass, on every floor (`Expr.not_isFixedPt_iterate_tower`).
-/

namespace SurfaceGeometry

open Function (IsFixedPt)

/-! ## Weights -/

/-- What a node of the operator weighs, when its operands weigh `l` and `r`. A constant weighs less
on the left of a product than on its right. -/
def BinaryOp.weigh (op : BinaryOp) (l r : Nat) : Nat :=
  match op with
  | mul | div => 3 * l + 2 * r
  | add | sub | pow | and | or => l + r + 1

/-- The operands are weighed in strictly: one that is lighter makes the node lighter. -/
theorem BinaryOp.weigh_lt {l l' r r' : Nat} (op : BinaryOp) (hl : l' ≤ l) (hr : r' ≤ r)
    (h : l' < l ∨ r' < r) : op.weigh l' r' < op.weigh l r := by
  cases op <;> simp only [weigh] <;> omega

namespace Expr

section

variable {α : Type}

mutual

/-- The weight of a tree, of which a pass that changes the tree takes some away. -/
def weight : Expr α → Nat
  | const _ => 1
  | symbol _ => 2
  | unary _ operand => operand.weight + 1
  | binary op left right => op.weigh left.weight right.weight
  | call _ args => weightAll args + 2

/-- The weight of all trees of a list. -/
def weightAll : List (Expr α) → Nat
  | [] => 0
  | arg :: args => arg.weight + weightAll args

end

/-- Every tree weighs something. -/
theorem weight_pos (e : Expr α) : 0 < e.weight := by
  cases e with
  | const | symbol | unary | call => simp [weight]
  | binary op left right =>
    have hl := weight_pos left
    cases op <;> simp only [weight, BinaryOp.weigh] <;> omega

/-- Only constants weigh as little as a constant. -/
theorem one_lt_weight {e : Expr α} (h : ∀ c, e ≠ const c) : 1 < e.weight := by
  cases e with
  | const c => exact absurd rfl (h c)
  | symbol | call => simp [weight]
  | unary op operand =>
    have hpos := weight_pos operand
    simp only [weight]
    omega
  | binary op left right =>
    have hl := weight_pos left
    have hr := weight_pos right
    cases op <;> simp only [weight, BinaryOp.weigh] <;> omega

/-- The tree becomes itself or a lighter one. -/
def Lightens (e e' : Expr α) : Prop :=
  e' = e ∨ e'.weight < e.weight

namespace Lightens

variable {e e' : Expr α}

/-- A tree may stay as it is. -/
theorem refl (e : Expr α) : Lightens e e := .inl rfl

/-- What becomes lighter or stays the same does not become heavier. -/
theorem weight_le (h : Lightens e e') : e'.weight ≤ e.weight := by
  rcases h with rfl | h
  · exact Nat.le_refl _
  · exact Nat.le_of_lt h

/-- A tree that keeps its weight has not changed. This is how a fixed point is seen from the
weights. -/
theorem eq_of_weight_eq (h : Lightens e e') (hweight : e'.weight = e.weight) : e' = e := by
  rcases h with rfl | h
  · rfl
  · omega

end Lightens

/-- The arguments of a call together become lighter, or all stay the same. -/
theorem lightens_map {f : Expr α → Expr α} {args : List (Expr α)}
    (h : ∀ arg ∈ args, Lightens arg (f arg)) :
    args.map f = args ∨ weightAll (args.map f) < weightAll args := by
  induction args with
  | nil => exact .inl rfl
  | cons arg args ih =>
    rw [List.map_cons, weightAll, weightAll]
    have hrest := ih fun arg harg => h arg (by simp [harg])
    rcases h arg (by simp) with heq | hlt
    · rw [heq]
      rcases hrest with hrest | hrest
      · exact .inl (by rw [hrest])
      · exact .inr (by omega)
    · rcases hrest with hrest | hrest
      · rw [hrest]
        exact .inr (by omega)
      · exact .inr (by omega)

/-- To become lighter or stay the same is concluded part by part. -/
theorem congruence_lightens : Congruence (Lightens : Expr α → Expr α → Prop) where
  refl := Lightens.refl
  trans h h' := by
    rcases h' with rfl | h'
    · exact h
    · exact .inr (Nat.lt_of_lt_of_le h' h.weight_le)
  unary op e e' h := by
    rcases h with rfl | h
    · exact .refl _
    · exact .inr (Nat.succ_lt_succ h)
  binary op l l' r r' hl hr := by
    rcases hl with rfl | hl
    · rcases hr with rfl | hr
      · exact .refl _
      · exact .inr (op.weigh_lt (Nat.le_refl _) (Nat.le_of_lt hr) (.inr hr))
    · exact .inr (op.weigh_lt (Nat.le_of_lt hl) hr.weight_le (.inl hl))
  call name args f h := by
    rcases lightens_map h with heq | hlt
    · rw [heq]
      exact .refl _
    · exact .inr (Nat.add_lt_add_right hlt 2)

end

/-! ## One pass -/

section

variable {α : Type} [Scalar α] {e e' : Expr α}

/-- A rule makes a tree lighter. The product of two constants is left out: they could change places.
-/
theorem Rewrite.lightens (h : Rewrite e e')
    (hconst : ∀ a b, e ≠ binary .mul (const a) (const b)) : Lightens e e' := by
  induction h with
  | same => exact .refl _
  | @mulConst c factor e' h ih =>
    have hfactor : ∀ a, factor ≠ const a := by
      rintro a rfl
      exact hconst a c rfl
    have hle := (ih fun a b h => by cases h; exact hfactor b rfl).weight_le
    have hlt := one_lt_weight hfactor
    simp only [weight, BinaryOp.weigh] at hle
    refine .inr ?_
    simp only [weight, BinaryOp.weigh]
    omega
  | @zeroAdd c e | @addZero c e | @subZero c e | @zeroSub c e | @zeroMul c e | @mulZero c e
  | @oneMul c e | @mulOne c e | @minusOneMul c e | @mulMinusOne c e | @zeroDiv c e | @divOne c e
  | @powZero c e | @powOne c e | @onePow c e =>
    have hpos := weight_pos e
    refine .inr ?_
    simp only [weight, BinaryOp.weigh]
    omega
  | @subSelf l r =>
    have hpos := weight_pos l
    refine .inr ?_
    simp only [weight, BinaryOp.weigh]
    omega
  | @foldBinary op =>
    refine .inr ?_
    cases op <;> simp [weight, BinaryOp.weigh]
  | _ =>
    refine .inr ?_
    simp only [weight, weightAll, BinaryOp.weigh]
    omega

/-- Two constants stay in their places if their product is neither folded nor one of the neutral
ones. -/
theorem lightens_simplifyProduct_const (a b : α) :
    Lightens (binary .mul (const a) (const b)) (simplifyProduct (const a) (const b)) := by
  simp only [simplifyProduct, constant?]
  repeat' split
  all_goals first
    | exact .inr (by decide : 1 < 5)
    | exact .inr (by decide : 2 < 5)
    | exact .refl _

/-- The simplification at a binary node makes the tree lighter or leaves it. The product of two
constants is the case for which no rule can be cited. -/
theorem lightens_simplifyBinary (op : BinaryOp) (left right : Expr α) :
    Lightens (binary op left right) (simplifyBinary op left right) := by
  by_cases hconst : ∀ a b, binary op left right ≠ binary .mul (const a) (const b)
  · exact (rewrite_simplifyBinary op left right).lightens hconst
  · push Not at hconst
    obtain ⟨a, b, heq⟩ := hconst
    cases heq
    cases hfold : foldBinary? .mul (const a) (const b) with
    | none =>
      rw [simplifyBinary, hfold]
      exact lightens_simplifyProduct_const a b
    | some e =>
      obtain ⟨-, rfl⟩ := finite?_eq_some hfold
      rw [simplifyBinary, hfold]
      exact .inr (by decide : 1 < 5)

/-- A pass leaves a tree as it is or makes it lighter. -/
theorem lightens_simplifyOnce (e : Expr α) : Lightens e e.simplifyOnce := by
  induction e with
  | const value => exact .refl _
  | symbol name => exact .refl _
  | unary op operand ih =>
    exact congruence_lightens.trans (congruence_lightens.unary op ih)
      ((rewrite_simplifyUnary op _).lightens fun a b h => by cases h)
  | binary op left right ihl ihr =>
    exact congruence_lightens.trans (congruence_lightens.binary op ihl ihr)
      (lightens_simplifyBinary op _ _)
  | call name args ih =>
    rw [simplifyOnce, simplifyAll_eq]
    exact congruence_lightens.trans (congruence_lightens.call name ih)
      ((rewrite_fold name _).lightens fun a b h => by cases h)

/-- After some passes, not more than the weight, a further pass leaves the tree as it is. -/
theorem exists_isFixedPt_iterate (e : Expr α) :
    ∃ n ≤ e.weight, IsFixedPt simplifyOnce (simplifyOnce^[n] e) := by
  induction hweight : e.weight using Nat.strong_induction_on generalizing e with
  | _ w ih =>
    rcases lightens_simplifyOnce e with hfixed | hlt
    · exact ⟨0, Nat.zero_le w, hfixed⟩
    · obtain ⟨n, hn, hfixed⟩ := ih e.simplifyOnce.weight (hweight ▸ hlt) e.simplifyOnce rfl
      exact ⟨n + 1, by omega, hfixed⟩

/-! ## Equal trees -/

mutual

/-- Equal trees have the same shape, and so the same weight. -/
theorem weight_eq_of_sameAs : ∀ {e e' : Expr α}, e.sameAs e' = true → e.weight = e'.weight
  | const _, const _, _ => rfl
  | symbol _, symbol _, _ => rfl
  | unary _ _, unary _ _, h => by
    simp only [sameAs, Bool.and_eq_true] at h
    rw [weight, weight, weight_eq_of_sameAs h.2]
  | binary _ _ _, binary _ _ _, h => by
    simp only [sameAs, Bool.and_eq_true, beq_iff_eq] at h
    rw [weight, weight, h.1.1, weight_eq_of_sameAs h.1.2, weight_eq_of_sameAs h.2]
  | call _ _, call _ _, h => by
    simp only [sameAs, Bool.and_eq_true] at h
    rw [weight, weight, weightAll_eq_of_allSameAs h.2]

/-- Trees that are the same up to the equality of constants weigh the same. -/
theorem weightAll_eq_of_allSameAs :
    ∀ {args args' : List (Expr α)}, allSameAs args args' = true → weightAll args = weightAll args'
  | [], [], _ => rfl
  | _ :: _, _ :: _, h => by
    simp only [allSameAs, Bool.and_eq_true] at h
    rw [weightAll, weightAll, weight_eq_of_sameAs h.1, weightAll_eq_of_allSameAs h.2]

end

/-- A tree is equal to itself if every constant of it is. -/
theorem beq_self_iff (e : Expr α) : (e == e) = true ↔ ∀ c ∈ e.literals, (c == c) = true := by
  show e.sameAs e = true ↔ _
  induction e with
  | const value => simp [sameAs, literals]
  | symbol name => simp [sameAs, literals]
  | unary op operand ih => simpa [sameAs, literals] using ih
  | binary op left right ihl ihr =>
    simp only [sameAs, literals, BEq.rfl, Bool.true_and, Bool.and_eq_true, List.forall_mem_append,
      ihl, ihr]
  | call name args ih =>
    simp only [sameAs, literals, BEq.rfl, Bool.true_and]
    induction args with
    | nil => simp [allSameAs, literalsAll]
    | cons arg args ihargs =>
      rw [allSameAs, literalsAll, Bool.and_eq_true, List.forall_mem_append, ih arg (by simp),
        ihargs fun arg harg => ih arg (by simp [harg])]

/-- The tree after a pass is found equal to the tree before just when it is the same tree and no
constant of it is unequal to itself. -/
theorem beq_simplifyOnce_iff (e : Expr α) :
    (e.simplifyOnce == e) = true ↔
      IsFixedPt simplifyOnce e ∧ ∀ c ∈ e.literals, (c == c) = true := by
  rw [← beq_self_iff]
  constructor
  · intro h
    have hfixed := (lightens_simplifyOnce e).eq_of_weight_eq (weight_eq_of_sameAs h)
    rw [hfixed] at h
    exact ⟨hfixed, h⟩
  · rintro ⟨hfixed, h⟩
    rwa [IsFixedPt.eq hfixed]

/-! ## All passes -/

/-- To stop at a tree that a pass leaves as it is, is the same as to go on. -/
theorem simplifyWithin_eq_iterate (passes : Nat) (e : Expr α) :
    e.simplifyWithin passes = simplifyOnce^[passes] e := by
  induction passes generalizing e with
  | zero => rfl
  | succ passes ih =>
    rw [simplifyWithin]
    split
    · next h => exact (((beq_simplifyOnce_iff e).1 h).1.iterate (passes + 1)).symm
    · exact ih e.simplifyOnce

/-- A tree that a pass leaves as it is stays the same in the passes that follow. -/
theorem isFixedPt_iterate_of_le {k n : Nat} (hkn : k ≤ n)
    (h : IsFixedPt simplifyOnce (simplifyOnce^[k] e)) :
    IsFixedPt simplifyOnce (simplifyOnce^[n] e) := by
  obtain ⟨m, rfl⟩ := Nat.exists_eq_add_of_le' hkn
  rw [Function.iterate_add_apply, h.iterate m]
  exact h

end

/-! ## Towers -/

section

variable {e : Expr Float}

/-- The variable that the terms of towers are made of. -/
def towerTerm : Expr Float := symbol "x"

/-- The product whose constants are merged into one. -/
def towerFactor : Expr Float := binary .mul (const 2) towerTerm

/-- The next floor: its term cancels when the floor below has become the term. -/
def floorAbove (e : Expr Float) : Expr Float :=
  binary .mul (binary .add (binary .sub e towerTerm) (const 0.5)) towerFactor

/-- A tree with that many floors above the ground. -/
def tower : Nat → Expr Float
  | 0 => binary .mul (const 0.5) towerFactor
  | n + 1 => floorAbove (tower n)

/-- What the floor is one pass before it is the term. -/
def towerLast : Expr Float := binary .mul (const (0.5 * 2)) towerTerm

/-- One pass over the lowest tower leaves a product by one. -/
theorem simplifyOnce_tower_zero : (tower 0).simplifyOnce = towerLast := rfl

/-- The product by one is gone after one more pass. -/
theorem simplifyOnce_towerLast : towerLast.simplifyOnce = towerTerm := rfl

/-- A pass over a floor of the tower is a pass over the floors below, followed by the rules at the
three nodes on top of them. -/
theorem simplifyOnce_floorAbove (e : Expr Float) :
    (floorAbove e).simplifyOnce = simplifyBinary .mul
      (simplifyBinary .add (simplifyBinary .sub e.simplifyOnce towerTerm) (const 0.5))
      towerFactor := rfl

/-- As long as the floor below is a product, only that floor changes. -/
theorem simplifyOnce_floorAbove_of_product (h : ∃ l r, e.simplifyOnce = binary .mul l r) :
    (floorAbove e).simplifyOnce = floorAbove e.simplifyOnce := by
  obtain ⟨l, r, hlr⟩ := h
  rw [simplifyOnce_floorAbove, hlr]
  rfl

/-- When the floor below becomes the term, the two cancel, and the constants are merged. -/
theorem simplifyOnce_floorAbove_of_eq (h : e.simplifyOnce = towerTerm) :
    (floorAbove e).simplifyOnce = towerLast := by
  rw [simplifyOnce_floorAbove, h]
  rfl

/-- The floors of a tower become the term one after the other, and up to then the tower is a
product. -/
theorem simplifyOnce_iterate_tower (n : Nat) :
    (∀ k ≤ n + 1, ∃ l r, simplifyOnce^[k] (tower n) = binary .mul l r) ∧
      simplifyOnce^[n + 1] (tower n) = towerLast := by
  induction n with
  | zero =>
    refine ⟨fun k hk => ?_, simplifyOnce_tower_zero⟩
    obtain rfl | rfl : k = 0 ∨ k = 1 := by omega
    · exact ⟨_, _, rfl⟩
    · exact ⟨_, _, simplifyOnce_tower_zero⟩
  | succ n ih =>
    obtain ⟨hproduct, hlast⟩ := ih
    -- The passes in which the floors below are at work.
    have hbelow : ∀ k ≤ n + 1,
        simplifyOnce^[k] (tower (n + 1)) = floorAbove (simplifyOnce^[k] (tower n)) := by
      intro k hk
      induction k with
      | zero => rfl
      | succ k ih =>
        rw [Function.iterate_succ_apply', Function.iterate_succ_apply', ih (by omega)]
        refine simplifyOnce_floorAbove_of_product ?_
        rw [← Function.iterate_succ_apply' simplifyOnce]
        exact hproduct (k + 1) hk
    have htop : simplifyOnce^[n + 2] (tower (n + 1)) = towerLast := by
      rw [Function.iterate_succ_apply', hbelow (n + 1) (Nat.le_refl _), hlast]
      exact simplifyOnce_floorAbove_of_eq simplifyOnce_towerLast
    refine ⟨fun k hk => ?_, htop⟩
    rcases Nat.lt_or_eq_of_le hk with hlt | rfl
    · exact ⟨_, _, hbelow k (by omega)⟩
    · exact ⟨_, _, htop⟩

/-- No number of passes is enough for all trees: a pass still changes the tower of that many floors.
-/
theorem not_isFixedPt_iterate_tower (n : Nat) :
    ¬IsFixedPt simplifyOnce (simplifyOnce^[n] (tower n)) := by
  intro h
  have hlast : IsFixedPt simplifyOnce towerLast := by
    rw [← (simplifyOnce_iterate_tower n).2]
    exact isFixedPt_iterate_of_le (Nat.le_succ n) h
  have heq : towerTerm = towerLast := simplifyOnce_towerLast.symm.trans hlast
  cases heq

/-- No constant of a tower is unequal to itself. -/
theorem literals_tower (n : Nat) : ∀ c ∈ (tower n).literals, (c == c) = true := by
  have hnumbers : ∀ c ∈ [(0.5 : Float), 2], (c == c) = true :=
    List.all_eq_true.1 (rfl : [(0.5 : Float), 2].all (fun c => c == c) = true)
  induction n with
  | zero => exact hnumbers
  | succ n ih =>
    have hfloor : (tower (n + 1)).literals = (((tower n).literals ++ []) ++ [0.5]) ++ [2] := rfl
    rw [hfloor, List.append_nil, List.append_assoc]
    exact List.forall_mem_append.2 ⟨ih, hnumbers⟩

end

/-! ## Simplification -/

/-- Simplification makes eight passes. The passes come to a tree that they leave as it is, and
simplification comes to that tree just when it takes eight passes at most. Then simplification
leaves the tree as it is, too. -/
theorem isFixedPt_simplify_iff {α : Type} [Scalar α] (e : Expr α) :
    e.simplify = simplifyOnce^[8] e ∧
      (∃ n ≤ e.weight, IsFixedPt simplifyOnce (simplifyOnce^[n] e)) ∧
      (IsFixedPt simplifyOnce e.simplify ↔
        ∃ n ≤ 8, IsFixedPt simplifyOnce (simplifyOnce^[n] e)) ∧
      ((e.simplify.simplifyOnce == e.simplify) = true ↔
        IsFixedPt simplifyOnce e.simplify ∧ ∀ c ∈ e.simplify.literals, (c == c) = true) ∧
      (IsFixedPt simplifyOnce e.simplify → e.simplify.simplify = e.simplify) := by
  have hpasses (e : Expr α) : e.simplify = simplifyOnce^[8] e := simplifyWithin_eq_iterate 8 e
  refine ⟨hpasses e, exists_isFixedPt_iterate e, ⟨fun h => ?_, ?_⟩, beq_simplifyOnce_iff _,
    fun h => ?_⟩
  · rw [hpasses] at h
    exact ⟨8, Nat.le_refl 8, h⟩
  · rintro ⟨n, hn, h⟩
    rw [hpasses]
    exact isFixedPt_iterate_of_le hn h
  · rw [hpasses e.simplify]
    exact h.iterate 8

/-- Eight passes leave `1 * x` of the tower of seven floors above the ground, which has no constant
that is unequal to itself, and a ninth pass gives `x`. -/
theorem not_isFixedPt_simplify_tower :
    (∀ c ∈ (tower 7).literals, (c == c) = true) ∧
      ((tower 7).simplify.simplifyOnce == (tower 7).simplify) = false ∧
      ((tower 7).simplify.simplify == (tower 7).simplify) = false := by
  have hsimplified : (tower 7).simplify = towerLast :=
    (simplifyWithin_eq_iterate 8 (tower 7)).trans (simplifyOnce_iterate_tower 7).2
  rw [hsimplified]
  exact ⟨literals_tower 7, rfl, rfl⟩

end Expr

end SurfaceGeometry
