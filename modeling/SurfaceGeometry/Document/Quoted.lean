/-!
# Quoted texts

How a text stands in a written document: between quotation marks, with escapes for what cannot
stand there as it is. An escape by number names a unit of sixteen bits; characters past the first
65536 take two units, a high and a low surrogate, and a surrogate without its partner is refused.
What is written is read back as the same text (`Quoted.decode?_body`).
-/

namespace SurfaceGeometry

namespace Quoted

/-! ## Reading -/

/-- The value of a hexadecimal digit. -/
def hexValue? (c : Char) : Option Nat :=
  if '0' ≤ c ∧ c ≤ '9' then some (c.toNat - '0'.toNat)
  else if 'a' ≤ c ∧ c ≤ 'f' then some (c.toNat - 'a'.toNat + 10)
  else if 'A' ≤ c ∧ c ≤ 'F' then some (c.toNat - 'A'.toNat + 10)
  else none

/-- The value of a row of hexadecimal digits. -/
def hexNumber? (cs : List Char) : Option Nat :=
  cs.foldlM (fun n c => (hexValue? c).map (16 * n + ·)) 0

/-- The character that a letter stands for behind a backslash. -/
def escape? : Char → Option Char
  | '\x22' => some '\x22'
  | '\x5c' => some '\x5c'
  | '/' => some '/'
  | 'b' => some '\x08'
  | 'f' => some '\x0c'
  | 'n' => some '\n'
  | 'r' => some '\r'
  | 't' => some '\t'
  | _ => none

/-- The units of a text behind its opening mark, up to the closing one, and what follows that. A
character that is no escape counts as one unit. -/
def units? : List Char → Option (List Nat × List Char)
  | [] => none
  | '\x22' :: rest => some ([], rest)
  | '\x5c' :: 'u' :: a :: b :: c :: d :: rest => do
    let unit ← hexNumber? [a, b, c, d]
    let (units, behind) ← units? rest
    return (unit :: units, behind)
  | '\x5c' :: letter :: rest => do
    let c ← escape? letter
    let (units, behind) ← units? rest
    return (c.toNat :: units, behind)
  | c :: rest => do
    let (units, behind) ← units? rest
    return (c.toNat :: units, behind)

/-- The first units of pairs. -/
def isHighSurrogate (unit : Nat) : Bool := 0xD800 ≤ unit && unit < 0xDC00

/-- The second units of pairs. -/
def isLowSurrogate (unit : Nat) : Bool := 0xDC00 ≤ unit && unit < 0xE000

/-- The characters of units, surrogates being taken together. -/
def characters? : List Nat → Option (List Char)
  | [] => some []
  | [unit] =>
    if isHighSurrogate unit || isLowSurrogate unit then none else some [Char.ofNat unit]
  | unit :: next :: rest =>
    if isHighSurrogate unit then
      if isLowSurrogate next then
        let code := 0x10000 + 0x400 * (unit - 0xD800) + (next - 0xDC00)
        (characters? rest).map (Char.ofNat code :: ·)
      else none
    else if isLowSurrogate unit then none
    else (characters? (next :: rest)).map (Char.ofNat unit :: ·)

/-- The text behind an opening mark, and what follows its closing one. -/
def decode? (cs : List Char) : Option (String × List Char) := do
  let (units, behind) ← units? cs
  return (String.ofList (← characters? units), behind)

/-! ## Writing -/

/-- The hexadecimal digit of a value below sixteen. -/
def hexDigit (n : Nat) : Char :=
  if n < 10 then Char.ofNat ('0'.toNat + n) else Char.ofNat ('a'.toNat + (n - 10))

/-- A character as it stands between the marks. -/
def written (c : Char) : List Char :=
  if c = '\x22' ∨ c = '\x5c' then ['\x5c', c]
  else if c.toNat < 32 then
    ['\x5c', 'u', '0', '0', hexDigit (c.toNat / 16), hexDigit (c.toNat % 16)]
  else [c]

/-- A text as it stands between the marks. -/
def body (text : String) : List Char := text.toList.flatMap written

/-- A text between marks. -/
def encode (text : String) : String :=
  String.ofList ('\x22' :: body text ++ ['\x22'])

/-! ## Reading what was written -/

/-- No character has the number of a surrogate. -/
theorem not_surrogate (c : Char) :
    isHighSurrogate c.toNat = false ∧ isLowSurrogate c.toNat = false := by
  have h : c.toNat < 0xD800 ∨ 0xDFFF < c.toNat ∧ c.toNat < 0x110000 := c.valid
  simp only [isHighSurrogate, isLowSurrogate, Bool.and_eq_false_iff, decide_eq_false_iff_not]
  omega

/-- The numbers of characters are read as these characters, as none of them is a surrogate. -/
theorem characters?_map_toNat (cs : List Char) : characters? (cs.map Char.toNat) = some cs := by
  induction cs with
  | nil => rfl
  | cons c cs ih =>
    have ⟨high, low⟩ := not_surrogate c
    cases cs with
    | nil => simp [characters?, high, low, Char.ofNat_toNat]
    | cons d ds =>
      rw [List.map_cons] at ih
      simp [characters?, high, low, ih, Char.ofNat_toNat]

/-- A hexadecimal digit that is written has its value. -/
theorem hexValue?_hexDigit {n : Nat} (h : n < 16) : hexValue? (hexDigit n) = some n := by
  have all : ∀ n, n < 16 → hexValue? (hexDigit n) = some n := by decide
  exact all n h

/-- A character that is neither a mark nor a backslash is its own unit. -/
theorem units?_cons {c : Char} (noMark : c ≠ '\x22') (noBackslash : c ≠ '\x5c')
    (rest : List Char) :
    units? (c :: rest) = (units? rest).bind fun read => some (c.toNat :: read.1, read.2) := by
  rw [units?]
  · rfl
  · exact noMark
  · exact fun _ _ _ _ _ h _ => noBackslash h
  · exact fun _ _ h _ => noBackslash h

/-- A written character is read as its unit. -/
theorem units?_written (c : Char) (cs : List Char) :
    units? (written c ++ cs) = (units? cs).map fun read => (c.toNat :: read.1, read.2) := by
  rw [Option.map_eq_bind]
  unfold written
  split
  · rename_i marked
    rcases marked with rfl | rfl <;> rfl
  · rename_i unmarked
    split
    · have high := hexValue?_hexDigit (n := c.toNat / 16) (by omega)
      have low := hexValue?_hexDigit (n := c.toNat % 16) (by omega)
      have zero : hexValue? '0' = some 0 := by decide
      have whole : 16 * (c.toNat / 16) + c.toNat % 16 = c.toNat := by omega
      have number :
          hexNumber? ['0', '0', hexDigit (c.toNat / 16), hexDigit (c.toNat % 16)] =
            some c.toNat := by
        simp [hexNumber?, zero, high, low, whole]
      rw [List.cons_append, List.cons_append, List.cons_append, List.cons_append,
        List.cons_append, List.cons_append, units?, number]
      rfl
    · exact units?_cons (fun h => unmarked (.inl h)) (fun h => unmarked (.inr h)) cs

/-- A text is read back from between the marks. -/
theorem decode?_body (text : String) (rest : List Char) :
    decode? (body text ++ '\x22' :: rest) = some (text, rest) := by
  have units (cs : List Char) :
      units? (cs.flatMap written ++ '\x22' :: rest) = some (cs.map Char.toNat, rest) := by
    induction cs with
    | nil => rfl
    | cons c cs ih => rw [List.flatMap_cons, List.append_assoc, units?_written, ih]; rfl
  unfold decode? body
  rw [units]
  simp [characters?_map_toNat]

end Quoted

end SurfaceGeometry
