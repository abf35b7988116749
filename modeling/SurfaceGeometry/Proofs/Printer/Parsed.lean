import SurfaceGeometry.Proofs.Printer.RoundTrip

/-!
# Trees that were parsed

The constants of a parsed tree are the numbers that some decimals are read as, its names are words
of the text, and its calls have arguments. None of its constants is negative, so it is printed to a
text that is parsed to the same tree.
-/

namespace SurfaceGeometry

open TokenKind

/-- A number has a property, and a name is a word. -/
def TokenKind.Proper {α : Type} (p : α → Prop) : TokenKind α → Prop
  | number value => p value
  | identifier name => Text.IsName name
  | _ => True

/-- A token of one of several segments is one of the tokens with the commas between them. -/
theorem mem_commaSeparated {α : Type} {kind : TokenKind α} {segment : List (TokenKind α)} :
    ∀ {segments : List (List (TokenKind α))}, segment ∈ segments → kind ∈ segment →
      kind ∈ commaSeparated segments
  | [_], hmem, hkind => by
    obtain rfl := List.mem_singleton.1 hmem
    exact hkind
  | first :: next :: segments, hmem, hkind => by
    rw [commaSeparated, List.mem_append]
    rcases List.mem_cons.1 hmem with rfl | hmem
    · exact .inl hkind
    · exact .inr (List.mem_cons_of_mem _ (mem_commaSeparated hmem hkind))

/-- A tree has the constants and the names of its tokens. -/
theorem Derives.writable {α : Type} {p : α → Prop} {bracket : Bool} {level : Level}
    {kinds : List (TokenKind α)} {e : Expr α} (h : Derives bracket level kinds e)
    (hproper : ∀ kind ∈ kinds, kind.Proper p) : e.Writable p := by
  induction h with
  | operand _ ih | unsigned _ ih | base _ ih => exact ih hproper
  | binary _ _ _ ihleft ihright | raised _ _ ihleft ihright =>
    rw [List.forall_mem_append, List.forall_mem_cons] at hproper
    exact .binary (ihleft hproper.1) (ihright hproper.2.2)
  | juxtaposed _ _ _ ihleft ihright =>
    rw [List.forall_mem_append] at hproper
    exact .binary (ihleft hproper.1) (ihright hproper.2)
  | unary _ ih => exact .unary (ih (List.forall_mem_cons.1 hproper).2)
  | number value => exact .const (hproper (.number value) (List.mem_cons_self ..))
  | name name => exact .symbol (hproper (.identifier name) (List.mem_cons_self ..))
  | @call _ name segments hne _ ih =>
    have hname : Text.IsName name := hproper (.identifier name) (List.mem_cons_self ..)
    rw [List.forall_mem_cons, List.forall_mem_cons, List.forall_mem_append] at hproper
    refine .call hname (by simpa using hne) fun arg harg => ?_
    obtain ⟨segment, hsegment, rfl⟩ := List.mem_map.1 harg
    refine ih segment hsegment fun kind hkind => ?_
    exact hproper.2.2.1 kind (mem_commaSeparated (List.mem_map_of_mem hsegment) hkind)
  | bracketed _ ih =>
    rw [List.forall_mem_cons, List.forall_mem_append] at hproper
    exact ih hproper.2.1

namespace Piece

variable {α : Type} [Scalar α]

/-- A number that a decimal is read as. -/
def OfDecimal (value : α) : Prop :=
  ∃ d, value = Scalar.ofDecimal d

/-- A word is scanned to a proper token: an operator, or a name that is no operator. -/
theorem proper_ofWord {c : Char} {cs : List Char} (hstart : Text.startsWord c = true)
    (hword : ∀ d ∈ cs, Text.isWordChar d = true) :
    (ofWord (String.ofList (c :: cs))).Proper (@OfDecimal α _) := by
  unfold ofWord
  split
  · trivial
  · split
    · trivial
    · split
      · trivial
      · next hand hor hnot =>
        refine ⟨c, cs, rfl, hstart, hword, ?_⟩
        simp only [List.mem_cons, hand, hor, hnot, List.not_mem_nil, or_false, not_false_eq_true]

/-- Every lexeme is a proper token. -/
theorem proper_of_next {c : Char} {cs chars : List Char} {kind : TokenKind α}
    (h : next c cs = .ok (lexeme chars kind)) : kind.Proper OfDecimal := by
  unfold next at h
  split at h
  · cases h
  · split at h
    · dsimp only at h
      split at h
      · next d _ =>
        cases h
        exact ⟨d, rfl⟩
      · cases h
    · split at h
      · next hstart =>
        cases h
        exact proper_ofWord hstart fun d hd => List.all_eq_true.1 List.all_takeWhile d hd
      · split at h
        · next kind hop =>
          cases h
          unfold ofOperator? at hop
          split at hop <;> cases hop <;> trivial
        · cases h

/-- Characters are scanned to proper tokens, by induction on the scan. -/
theorem proper_of_scan {position : Nat} {cs : List Char} {pieces : List (Piece α)}
    (h : scan position cs = .ok pieces) : ∀ kind ∈ kinds pieces, kind.Proper OfDecimal := by
  fun_induction @scan α _ position cs generalizing pieces with
  | case1 =>
    cases h
    intro _ hkind
    cases hkind
  | case2 => cases h
  | case3 position c cs piece hnext _ ih =>
    obtain ⟨others, hothers, rfl⟩ := Outcome.map_eq_ok.1 h
    cases piece with
    | blank _ => exact @ih others hothers
    | lexeme chars kind => exact List.forall_mem_cons.2 ⟨proper_of_next hnext, @ih others hothers⟩

end Piece

/-- A text is scanned to proper tokens. -/
theorem Token.proper_of_scan {α : Type} [Scalar α] {text : String} {tokens : List (Token α)}
    (h : Token.scan text = .ok tokens) :
    ∀ kind ∈ Token.kinds tokens, kind.Proper Piece.OfDecimal := by
  unfold Token.scan at h
  split at h
  · next pieces hpieces =>
    cases h
    rw [Piece.kinds_ofPieces]
    exact Piece.proper_of_scan hpieces
  · cases h

namespace Expr

variable {α : Type} [Scalar α]

/-- The constants of a parsed tree are the literals of its text. -/
theorem writable_of_parse {p : α → Prop} {text : String} {tokens : List (Token α)} {e : Expr α}
    (hscan : Token.scan text = .ok tokens)
    (hliterals : ∀ value, number value ∈ Token.kinds tokens → p value)
    (h : parse text = .ok e) :
    e.Writable fun value => p value ∧ Piece.OfDecimal value := by
  rw [parse_eq_ofTokens hscan, ofTokens_eq_ok_iff] at h
  refine h.writable fun kind hkind => ?_
  have hproper := Token.proper_of_scan hscan kind hkind
  cases kind with
  | number value => exact ⟨hliterals value hkind, hproper⟩
  | _ => exact hproper

/-- A tree without negative constants has its signs as they are. -/
theorem signed_eq_self {e : Expr α} (h : e.Writable fun value => ¬value < 0) : e.signed = e := by
  induction h with
  | const hvalue => rw [signed, if_neg hvalue]
  | symbol _ => rfl
  | unary _ ih => rw [signed, ih]
  | binary _ _ ihleft ihright => rw [signed, ihleft, ihright]
  | @call name args _ _ _ ih =>
    rw [signed, signedAll_eq, List.map_congr_left ih, List.map_id']

end Expr

end SurfaceGeometry
