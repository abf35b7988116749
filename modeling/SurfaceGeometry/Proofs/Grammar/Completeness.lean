import SurfaceGeometry.Proofs.Grammar.Depth

/-!
# What is derived is read

A derivation of the tokens in front of a list drives the readers to its tree and to the tokens
behind, provided that those do not join the expression: `TokenKind.joins` is the rank of the level
at which a token goes on with the expression before it, and a reader stops at tokens of looser
levels.

A chain is read from the left while its derivation nests to the left, so the statement on chains
(`Expr.ReadsChain`) is about a reader in the middle of a chain: it has read the operands of the
derivation and may go on. From soundness and completeness together, a list of tokens has one tree at
most (`Derives.unique`).
-/

namespace SurfaceGeometry

open TokenKind Token

namespace TokenKind

variable {α : Type}

/-- The rank of the level at which tokens go on with an expression before them, and more than every
rank if they do not. -/
def joins : List (TokenKind α) → Nat
  | caret :: _ => 2
  | star :: _ | slash :: _ | number _ :: _ | identifier _ :: _ | openParen :: _ | not :: _ => 5
  | plus :: _ | minus :: _ => 7
  | and :: _ => 9
  | or :: _ => 11
  | closeParen :: _ | comma :: _ | [] => 12

/-- An operator joins at the rank of its chain. -/
theorem joins_cons_of_operator? {level : BinaryLevel} {kind : TokenKind α}
    {kinds : List (TokenKind α)} {op : BinaryOp} (h : level.operator? kind = some op) :
    joins (kind :: kinds) = (Level.chain level).rank := by
  cases level <;> cases kind <;> first | rfl | cases h

/-- A token that starts a factor joins at the rank of products, without an operator. -/
theorem joins_cons_of_startsFactor {kind : TokenKind α} {kinds : List (TokenKind α)}
    (h : kind.startsFactor) : joins (kind :: kinds) = (Level.chain .product).rank := by
  cases kind <;> first | rfl | cases h

/-- A chain does not go on with tokens of a looser level. -/
theorem continues_eq_false {level : BinaryLevel} {kinds : List (TokenKind α)}
    (h : (Level.chain level).rank < joins kinds) : level.continues kinds = false := by
  match kinds with
  | [] => rfl
  | kind :: kinds => cases level <;> cases kind <;> first | rfl | exact absurd h (Nat.lt_irrefl _)

/-- What does not join a power does not join a signed expression either. -/
theorem signed_lt_joins {kinds : List (TokenKind α)} (h : Level.power.rank < joins kinds) :
    Level.signed.rank < joins kinds := by
  match kinds with
  | [] => exact Nat.le_add_left 4 8
  | kind :: kinds =>
    cases kind with
    | caret => exact absurd h (Nat.lt_irrefl _)
    | _ => exact Nat.le_add_left 4 _

/-- Tokens that join at a looser level than powers do not start with a caret. -/
theorem head?_ne_caret {kinds : List (TokenKind α)} (h : 2 < joins kinds) :
    kinds.head? ≠ some caret := by
  rintro hcaret
  obtain ⟨others, rfl⟩ := List.head?_eq_some_iff.1 hcaret
  exact absurd h (Nat.lt_irrefl _)

end TokenKind

namespace Expr

variable {α : Type} {finish : Nat}

/-- The reader of a level gives the tree when the tokens stand in front of others that do not join
them. -/
def ReadsWhole (finish : Nat) (bracket : Bool) (level : Level) (tokens : List (Token α))
    (e : Expr α) : Prop :=
  ∀ rest depth, opens (kinds rest) = bracket → level.rank < joins (kinds rest) →
    12 * tokens.length + level.rank ≤ depth →
    readAt finish depth level (tokens ++ rest) = .ok (e, rest)

/-- The reader of a chain comes to the tree of the tokens, and goes on behind them. It has made a
step for each operand, of which there are `more + 1`. -/
def ReadsChain (finish : Nat) (bracket : Bool) (level : BinaryLevel) (tokens : List (Token α))
    (e : Expr α) : Prop :=
  ∃ more, more < tokens.length ∧ ∀ rest depth, opens (kinds rest) = bracket →
    level.operand.rank < joins (kinds rest) →
    12 * tokens.length + level.operand.rank + 1 ≤ depth + 12 * more →
    readBinary finish (depth + (more + 1)) level (tokens ++ rest) =
      readChain finish depth level e rest

/-- What the reader of a level does on tokens with a derivation. -/
def Reads (finish : Nat) (bracket : Bool) : Level → List (Token α) → Expr α → Prop
  | .chain level => ReadsChain finish bracket level
  | level => ReadsWhole finish bracket level

variable {bracket : Bool} {tokens : List (Token α)} {e : Expr α}

/-- Before tokens that do not join it, a chain ends. -/
theorem ReadsChain.whole {level : BinaryLevel} (h : ReadsChain finish bracket level tokens e) :
    ReadsWhole finish bracket (.chain level) tokens e := by
  intro rest depth hopens hjoins hdepth
  obtain ⟨more, hmore, h⟩ := h
  rw [Level.rank_chain] at hdepth
  obtain ⟨left, rfl⟩ : ∃ left, depth = left + 1 + (more + 1) := ⟨depth - (more + 2), by omega⟩
  have hoperand := Level.rank_chain level
  show readBinary finish (left + 1 + (more + 1)) level (tokens ++ rest) = _
  rw [h rest (left + 1) hopens (by omega) (by omega)]
  exact readChain_stop (continues_eq_false hjoins)

/-- A tree that the readers come to is one that the reader of the level gives. For chains this is so
because they end before tokens that do not join. -/
theorem Reads.whole {level : Level} (h : Reads finish bracket level tokens e) :
    ReadsWhole finish bracket level tokens e := by
  cases level with
  | chain level => exact ReadsChain.whole h
  | signed | power | primary => exact h

/-- The reader of the operands of a chain. -/
theorem ReadsWhole.operand {level : BinaryLevel} {depth : Nat} {rest : List (Token α)}
    (h : ReadsWhole finish bracket level.operand tokens e) (hopens : opens (kinds rest) = bracket)
    (hjoins : level.operand.rank < joins (kinds rest))
    (hdepth : 12 * tokens.length + level.operand.rank + 1 ≤ depth) :
    readOperand finish depth level (tokens ++ rest) = .ok (e, rest) := by
  obtain ⟨depth, rfl⟩ : ∃ less, depth = less + 1 := ⟨depth - 1, by omega⟩
  rw [readOperand_succ]
  exact h rest depth hopens hjoins (by omega)

/-! ## One rule of the grammar -/

/-- A chain that is a single operand. -/
theorem readsChain_operand {level : BinaryLevel} (hne : tokens ≠ [])
    (h : ReadsWhole finish bracket level.operand tokens e) :
    ReadsChain finish bracket level tokens e := by
  refine ⟨0, List.length_pos_iff.2 hne, fun rest depth hopens hjoins hdepth => ?_⟩
  rw [readBinary_succ, h.operand hopens hjoins (by omega)]
  rfl

/-- A chain goes on with an operator and an operand. One more step of the reader is needed, and
there is one more token to pay for it. -/
theorem readsChain_binary {level : BinaryLevel} {lefts rights : List (Token α)} {token : Token α}
    {op : BinaryOp} {a b : Expr α} (hop : level.operator? token.kind = some op)
    (hleft : ReadsChain finish false level lefts a)
    (hright : ReadsWhole finish bracket level.operand rights b) :
    ReadsChain finish bracket level (lefts ++ token :: rights) (.binary op a b) := by
  obtain ⟨more, hmore, hleft⟩ := hleft
  have hlength : (lefts ++ token :: rights).length = lefts.length + rights.length + 1 := by
    simp only [List.length_append, List.length_cons]
    omega
  refine ⟨more + 1, by omega, fun rest depth hopens hjoins hdepth => ?_⟩
  have hjoin := @joins_cons_of_operator? α level token.kind (kinds (rights ++ rest)) op hop
  have hrank := Level.rank_chain level
  have hmid := hleft (token :: (rights ++ rest)) (depth + 1) (opens_cons_of_operator? hop)
    (by rw [kinds_cons, hjoin]; omega) (by omega)
  have hcount : depth + (more + 1 + 1) = depth + 1 + (more + 1) := by omega
  rw [List.append_assoc, List.cons_append, hcount, hmid, readChain_operator hop,
    hright.operand hopens hjoins (by omega)]
  rfl

/-- A product goes on with a factor that follows directly. -/
theorem readsChain_juxtaposed {lefts rights : List (Token α)} {a b : Expr α}
    (hfactor : factorFollows (kinds rights))
    (hleft : ReadsChain finish (opens (kinds rights)) .product lefts a)
    (hright : ReadsWhole finish bracket .signed rights b) :
    ReadsChain finish bracket .product (lefts ++ rights) (.binary .mul a b) := by
  match rights, hfactor with
  | token :: others, hfactor =>
    obtain ⟨more, hmore, hleft⟩ := hleft
    have hlength : (lefts ++ token :: others).length = lefts.length + others.length + 1 := by
      simp only [List.length_append, List.length_cons]
      omega
    refine ⟨more + 1, by omega, fun rest depth hopens hjoins hdepth => ?_⟩
    have hkind : token.kind.startsFactor = true := hfactor
    have hjoin := @joins_cons_of_startsFactor α token.kind (kinds (others ++ rest)) hkind
    have hmid := hleft (token :: (others ++ rest)) (depth + 1) (opens_cons_congr _)
      (by rw [kinds_cons, hjoin]; decide) (by omega)
    have hcount : depth + (more + 1 + 1) = depth + 1 + (more + 1) := by omega
    have hcall : readOperand finish depth .product (token :: others ++ rest) = .ok (b, rest) := by
      refine @ReadsWhole.operand α finish bracket _ b .product depth rest hright hopens hjoins ?_
      rw [List.length_cons]
      omega
    rw [List.append_assoc, List.cons_append, hcount, hmid, readChain_factor hkind,
      ← List.cons_append, hcall]
    rfl

/-- A sign is read, and then what it stands before. -/
theorem readsWhole_unary {op : UnaryOp} {p : Nat}
    (h : ReadsWhole finish bracket .signed tokens e) :
    ReadsWhole finish bracket .signed (⟨ofUnary op, p⟩ :: tokens) (.unary op e) := by
  intro rest depth hopens hjoins hdepth
  rw [List.length_cons] at hdepth
  obtain ⟨depth, rfl⟩ : ∃ less, depth = less + 1 := ⟨depth - 1, by omega⟩
  show readSigned finish (depth + 1) _ = _
  rw [List.cons_append, readSigned_sign]
  have hread : readSigned finish depth (tokens ++ rest) = .ok (e, rest) :=
    h rest depth hopens hjoins (by omega)
  rw [hread]
  rfl

/-- An expression without a sign is a power. It does not start like one with a sign, as no
derivation of a power does. -/
theorem readsWhole_unsigned (hpower : Derives bracket .power (kinds tokens) e)
    (h : ReadsWhole finish bracket .power tokens e) :
    ReadsWhole finish bracket .signed tokens e := by
  intro rest depth hopens hjoins hdepth
  simp only [Level.rank] at hjoins hdepth
  obtain ⟨depth, rfl⟩ : ∃ less, depth = less + 1 := ⟨depth - 1, by omega⟩
  obtain ⟨kind, others, hkinds, hsign⟩ := hpower.exists_cons_of_tight (by decide)
  show readSigned finish (depth + 1) _ = _
  rw [readSigned_unsigned (by rw [kinds_append, hkinds]; exact hsign)]
  exact h rest depth hopens (by simp only [Level.rank]; omega) (by simp only [Level.rank]; omega)

/-- A power with an exponent, in which signs may stand. -/
theorem readsWhole_raised {bases exponents : List (Token α)} {p : Nat} {a b : Expr α}
    (hbase : ReadsWhole finish false .primary bases a)
    (hexponent : ReadsWhole finish bracket .signed exponents b) :
    ReadsWhole finish bracket .power (bases ++ ⟨.caret, p⟩ :: exponents) (.binary .pow a b) := by
  intro rest depth hopens hjoins hdepth
  have hlength : (bases ++ ⟨.caret, p⟩ :: exponents).length =
      bases.length + exponents.length + 1 := by
    simp only [List.length_append, List.length_cons]
    omega
  simp only [Level.rank] at hdepth
  obtain ⟨depth, rfl⟩ : ∃ less, depth = less + 1 := ⟨depth - 1, by omega⟩
  have hbases : readPrimary finish depth (bases ++ (⟨.caret, p⟩ :: (exponents ++ rest))) =
      .ok (a, ⟨.caret, p⟩ :: (exponents ++ rest)) :=
    hbase _ depth rfl (Nat.lt_succ_self 1) (by simp only [Level.rank]; omega)
  have hexponents : readSigned finish depth (exponents ++ rest) = .ok (b, rest) :=
    hexponent rest depth hopens (signed_lt_joins hjoins) (by simp only [Level.rank]; omega)
  show readPower finish (depth + 1) _ = _
  rw [readPower_succ, List.append_assoc, List.cons_append, hbases, Outcome.ok_bind,
    readExponent_caret, hexponents]
  rfl

/-- A power without an exponent. -/
theorem readsWhole_base (h : ReadsWhole finish bracket .primary tokens e) :
    ReadsWhole finish bracket .power tokens e := by
  intro rest depth hopens hjoins hdepth
  simp only [Level.rank] at hjoins hdepth
  obtain ⟨depth, rfl⟩ : ∃ less, depth = less + 1 := ⟨depth - 1, by omega⟩
  have hread : readPrimary finish depth (tokens ++ rest) = .ok (e, rest) :=
    h rest depth hopens (by simp only [Level.rank]; omega) (by simp only [Level.rank]; omega)
  show readPower finish (depth + 1) _ = _
  rw [readPower_succ, hread, Outcome.ok_bind]
  exact readExponent_stop (head?_ne_caret hjoins)

/-- A number is read. -/
theorem readsWhole_number {value : α} {p : Nat} :
    ReadsWhole finish bracket .primary [⟨.number value, p⟩] (.const value) := by
  intro rest depth _ _ hdepth
  simp only [Level.rank] at hdepth
  obtain ⟨depth, rfl⟩ : ∃ less, depth = less + 1 := ⟨depth - 1, by omega⟩
  rfl

/-- A name is read before tokens that do not start with an opening bracket; otherwise it would be
that of a call. -/
theorem readsWhole_name {name : String} {p : Nat} :
    ReadsWhole finish false .primary [(⟨.identifier name, p⟩ : Token α)] (.symbol name) := by
  intro rest depth hopens _ hdepth
  simp only [Level.rank] at hdepth
  obtain ⟨depth, rfl⟩ : ∃ less, depth = less + 1 := ⟨depth - 1, by omega⟩
  exact readPrimary_name hopens

/-- An expression in brackets is read, whatever stands behind the closing one. -/
theorem readsWhole_bracketed {opened closed : Nat}
    (h : ReadsWhole finish false (.chain .disjunction) tokens e) :
    ReadsWhole finish bracket .primary
      (⟨.openParen, opened⟩ :: (tokens ++ [⟨.closeParen, closed⟩])) e := by
  intro rest depth _ _ hdepth
  simp only [Level.rank, List.length_cons, List.length_append] at hdepth
  obtain ⟨depth, rfl⟩ : ∃ less, depth = less + 1 := ⟨depth - 1, by omega⟩
  have hread : readBinary finish depth .disjunction (tokens ++ ⟨.closeParen, closed⟩ :: rest) =
      .ok (e, ⟨.closeParen, closed⟩ :: rest) :=
    h _ depth rfl (Nat.lt_succ_self 11) (by simp only [Level.rank]; omega)
  rw [readAt, List.cons_append, readPrimary_bracket, List.append_assoc, List.singleton_append,
    hread]
  rfl

/-- The arguments of a call, before the closing bracket. -/
theorem readArguments_of_segments {closed : Nat} {rest : List (Token α)} :
    ∀ (segments : List (List (TokenKind α) × Expr α)) (tokens : List (Token α)) (depth : Nat),
    segments ≠ [] → kinds tokens = commaSeparated (segments.map Prod.fst) →
    (∀ segment ∈ segments, ∀ tokens : List (Token α), kinds tokens = segment.1 →
      ReadsWhole finish false (.chain .disjunction) tokens segment.2) →
    12 * tokens.length + 12 ≤ depth →
    readArguments finish depth (tokens ++ ⟨.closeParen, closed⟩ :: rest) =
      .ok (segments.map Prod.snd, ⟨.closeParen, closed⟩ :: rest)
  | [], _, _, hne, _, _, _ => absurd rfl hne
  | [segment], tokens, depth, _, hkinds, hreads, hdepth => by
    obtain ⟨depth, rfl⟩ : ∃ less, depth = less + 1 := ⟨depth - 1, by omega⟩
    have hread : readBinary finish depth .disjunction (tokens ++ ⟨.closeParen, closed⟩ :: rest) =
        .ok (segment.2, ⟨.closeParen, closed⟩ :: rest) :=
      hreads segment (by simp) tokens hkinds _ depth rfl (Nat.lt_succ_self 11)
        (by simp only [Level.rank]; omega)
    rw [readArguments_succ, hread]
    rfl
  | segment :: next :: segments, tokens, depth, _, hkinds, hreads, hdepth => by
    obtain ⟨depth, rfl⟩ : ∃ less, depth = less + 1 := ⟨depth - 1, by omega⟩
    obtain ⟨first, mid, rfl, hfirst, hmid⟩ := List.map_eq_append_iff.1 hkinds
    obtain ⟨⟨kind, p⟩, others, rfl, rfl, hothers⟩ := List.map_eq_cons_iff.1 hmid
    simp only [List.length_append, List.length_cons] at hdepth
    have hread : readBinary finish depth .disjunction
        (first ++ ⟨.comma, p⟩ :: (others ++ ⟨.closeParen, closed⟩ :: rest)) =
        .ok (segment.2, ⟨.comma, p⟩ :: (others ++ ⟨.closeParen, closed⟩ :: rest)) :=
      hreads segment (by simp) first hfirst _ depth rfl (Nat.lt_succ_self 11)
        (by simp only [Level.rank]; omega)
    have hfurther := @readArguments_of_segments closed rest (next :: segments) others depth
      (by simp) hothers
      (fun segment hmem => hreads segment (List.mem_cons_of_mem _ hmem)) (by omega)
    rw [readArguments_succ, List.append_assoc, List.cons_append]
    rw [hread, Outcome.ok_bind, readFurther_comma, hfurther]
    rfl

/-- A call is read, with one or more arguments. -/
theorem readsWhole_call {name : String} {p opened closed : Nat}
    {segments : List (List (TokenKind α) × Expr α)} (hne : segments ≠ [])
    (hkinds : kinds tokens = commaSeparated (segments.map Prod.fst))
    (hreads : ∀ segment ∈ segments, ∀ tokens : List (Token α), kinds tokens = segment.1 →
      ReadsWhole finish false (.chain .disjunction) tokens segment.2) :
    ReadsWhole finish bracket .primary
      (⟨.identifier name, p⟩ :: ⟨.openParen, opened⟩ :: (tokens ++ [⟨.closeParen, closed⟩]))
      (.call name (segments.map Prod.snd)) := by
  intro rest depth _ _ hdepth
  simp only [Level.rank, List.length_cons, List.length_append] at hdepth
  obtain ⟨depth, rfl⟩ : ∃ less, depth = less + 1 := ⟨depth - 1, by omega⟩
  have hargs := @readArguments_of_segments α finish closed rest segments tokens depth hne hkinds
    hreads (by omega)
  rw [readAt, List.cons_append, List.cons_append, readPrimary_call, List.append_assoc,
    List.singleton_append, hargs]
  rfl

/-! ## All derivations -/

/-- Every derivation is followed by the readers. The induction is on the derivation, with one of the
lemmas above for each rule. -/
theorem reads_of_derives {level : Level} {taken : List (TokenKind α)}
    (h : Derives bracket level taken e) :
    ∀ tokens, kinds tokens = taken → Reads finish bracket level tokens e := by
  induction h with
  | operand hoperand ih =>
    intro tokens hkinds
    have hne : tokens ≠ [] := fun h => hoperand.ne_nil (by rw [← hkinds, h]; rfl)
    exact readsChain_operand hne (ih tokens hkinds).whole
  | binary hop _ _ ihleft ihright =>
    intro tokens hkinds
    obtain ⟨lefts, mid, rfl, hlefts, hmid⟩ := List.map_eq_append_iff.1 hkinds
    obtain ⟨token, rights, rfl, rfl, hrights⟩ := List.map_eq_cons_iff.1 hmid
    exact readsChain_binary hop (ihleft lefts hlefts) (ihright rights hrights).whole
  | juxtaposed hfactor _ _ ihleft ihright =>
    intro tokens hkinds
    obtain ⟨lefts, rights, rfl, hlefts, rfl⟩ := List.map_eq_append_iff.1 hkinds
    exact readsChain_juxtaposed hfactor (ihleft lefts hlefts) (ihright rights rfl)
  | unary _ ih =>
    intro tokens hkinds
    obtain ⟨⟨kind, p⟩, operands, rfl, rfl, hoperands⟩ := List.map_eq_cons_iff.1 hkinds
    exact readsWhole_unary (ih operands hoperands)
  | unsigned hpower ih =>
    rintro tokens rfl
    exact readsWhole_unsigned hpower (ih tokens rfl)
  | raised _ _ ihbase ihexponent =>
    intro tokens hkinds
    obtain ⟨bases, mid, rfl, hbases, hmid⟩ := List.map_eq_append_iff.1 hkinds
    obtain ⟨⟨kind, p⟩, exponents, rfl, rfl, hexponents⟩ := List.map_eq_cons_iff.1 hmid
    exact readsWhole_raised (ihbase bases hbases) (ihexponent exponents hexponents)
  | base _ ih =>
    intro tokens hkinds
    exact readsWhole_base (ih tokens hkinds)
  | number value =>
    intro tokens hkinds
    obtain ⟨⟨kind, p⟩, rest, rfl, rfl, hrest⟩ := List.map_eq_cons_iff.1 hkinds
    obtain rfl := List.map_eq_nil_iff.1 hrest
    exact readsWhole_number
  | name name =>
    intro tokens hkinds
    obtain ⟨⟨kind, p⟩, rest, rfl, rfl, hrest⟩ := List.map_eq_cons_iff.1 hkinds
    obtain rfl := List.map_eq_nil_iff.1 hrest
    exact readsWhole_name
  | call name hne _ ih =>
    intro tokens hkinds
    obtain ⟨⟨kind, p⟩, mid, rfl, rfl, hmid⟩ := List.map_eq_cons_iff.1 hkinds
    obtain ⟨⟨kind, opened⟩, behind, rfl, rfl, hbehind⟩ := List.map_eq_cons_iff.1 hmid
    obtain ⟨args, last, rfl, hargs, hlast⟩ := List.map_eq_append_iff.1 hbehind
    obtain ⟨⟨kind, closed⟩, rest, rfl, rfl, hrest⟩ := List.map_eq_cons_iff.1 hlast
    obtain rfl := List.map_eq_nil_iff.1 hrest
    exact readsWhole_call hne hargs fun segment hmem tokens hkinds =>
      (ih segment hmem tokens hkinds).whole
  | bracketed _ ih =>
    intro tokens hkinds
    obtain ⟨⟨kind, opened⟩, mid, rfl, rfl, hmid⟩ := List.map_eq_cons_iff.1 hkinds
    obtain ⟨inner, last, rfl, hinner, hlast⟩ := List.map_eq_append_iff.1 hmid
    obtain ⟨⟨kind, closed⟩, rest, rfl, rfl, hrest⟩ := List.map_eq_cons_iff.1 hlast
    obtain rfl := List.map_eq_nil_iff.1 hrest
    exact readsWhole_bracketed (ih inner hinner).whole

/-- Tokens with a derivation are read to its tree, all of them, at every depth that is enough. -/
theorem readAt_of_derives {level : Level} {depth : Nat}
    (h : Derives false level (kinds tokens) e) (hdepth : 12 * tokens.length + level.rank ≤ depth) :
    readAt finish depth level tokens = .ok (e, []) := by
  have hlevel : level.rank < 12 := by
    rcases level with level | _
    · cases level <;> decide
    all_goals decide
  have hread := (@reads_of_derives α finish _ _ _ _ h tokens rfl).whole [] depth rfl hlevel hdepth
  rwa [List.append_nil] at hread

end Expr

/-- A list of tokens is an expression of a level with one tree at most. -/
theorem Derives.unique {α : Type} {level : Level} {kinds : List (TokenKind α)} {e e' : Expr α}
    (h : Derives false level kinds e) (h' : Derives false level kinds e') : e = e' := by
  obtain ⟨tokens, rfl⟩ : ∃ tokens, Token.kinds tokens = kinds :=
    ⟨kinds.map fun kind => ⟨kind, 0⟩, by simp [Token.kinds, Function.comp_def]⟩
  have hread := @Expr.readAt_of_derives α 0 _ _ _ _ h (Nat.le_refl _)
  rw [Expr.readAt_of_derives h' (Nat.le_refl _)] at hread
  injection hread with hread
  exact (Prod.mk.inj hread).1.symm

end SurfaceGeometry
