import GraphDispatch.Proofs.Json.Lexing

/-!
# Texts of whole numbers

A whole number is written by its decimal digits, of which the first is zero for zero only. So the
automaton takes all of them for digits of one number, and their value is the number again.
-/

namespace GraphDispatch.Json

open Decimal

namespace Lexer

def digitValue (c : Char) : Nat := c.toNat - '0'.toNat

theorem digit?_of_isDigit {c : Char} (h : c.isDigit = true) : digit? c = some (digitValue c) := by
  have bounds : '0' ≤ c ∧ c ≤ '9' := by
    simpa [Char.isDigit, Char.le_def] using h
  exact if_pos bounds

theorem numeral_digitValues (ds : List Char) :
    numeral (ds.map digitValue) = Nat.ofDigitChars 10 ds 0 := by
  have general : ∀ n, (ds.map digitValue).foldl (fun n d => n * 10 + d) n =
      Nat.ofDigitChars 10 ds n := by
    induction ds with
    | nil => exact fun n => rfl
    | cons c ds ih =>
      intro n
      rw [List.map_cons, List.foldl_cons, ih, Nat.ofDigitChars_cons, Nat.mul_comm]
      rfl
  exact general 0

theorem trace_digits {ds : List Char} (h : ∀ c ∈ ds, c.isDigit = true) (negative : Bool)
    (read : List Nat) :
    trace (.number .whole ⟨negative, read, none, none⟩) (ds.map some) =
      (.number .whole ⟨negative, (ds.map digitValue).reverse ++ read, none, none⟩, []) := by
  induction ds generalizing read with
  | nil => rfl
  | cons c ds ih =>
    obtain ⟨first, rest⟩ := List.forall_mem_cons.1 h
    have goesOn : step (.number .whole ⟨negative, read, none, none⟩) (some c) =
        (.number .whole ⟨negative, digitValue c :: read, none, none⟩, []) := by
      simp [step, stepNumber, continueNumber, digit?_of_isDigit first, Literal.pushWhole]
    rw [List.map_cons, trace, goesOn, ih rest]
    simp

/-- The digits of a number other than zero. -/
theorem exists_leading_digit {n : Nat} (positive : 0 < n) :
    ∃ d < 10, 0 < d ∧ ∃ ds, Nat.toDigits 10 n = d.digitChar :: ds := by
  induction n using Nat.strongRecOn with
  | _ n ih =>
    by_cases small : n < 10
    · exact ⟨n, small, positive, [], Nat.toDigits_of_lt_base small⟩
    · obtain ⟨d, bound, leading, ds, shape⟩ := ih (n / 10) (by omega) (by omega)
      refine ⟨d, bound, leading, ds ++ [(n % 10).digitChar], ?_⟩
      rw [Nat.toDigits_of_base_le (by decide) (Nat.le_of_not_lt small), shape]
      rfl

theorem start_digitChar : ∀ d < 10, 0 < d →
    start (some d.digitChar) =
      (.number .whole ⟨false, [digitValue d.digitChar], none, none⟩, []) := by
  decide

theorem sign_digitChar : ∀ d < 10, 0 < d →
    step (.number .sign ⟨true, [], none, none⟩) (some d.digitChar) =
      (.number .whole ⟨true, [digitValue d.digitChar], none, none⟩, []) := by
  decide

theorem isDigit_of_toDigits {n : Nat} {c : Char} {cs : List Char}
    (h : Nat.toDigits 10 n = c :: cs) : ∀ c ∈ cs, c.isDigit = true := fun _ mem =>
  Nat.isDigit_of_mem_toDigits (b := 10) (by decide) (by decide) (h ▸ List.mem_cons_of_mem c mem)

theorem literal?_digits (n : Nat) : literal? ((Nat.toDigits 10 n).map some) =
    some ⟨false, ((Nat.toDigits 10 n).map digitValue).reverse, none, none⟩ := by
  rcases Nat.eq_zero_or_pos n with rfl | positive
  · rfl
  · obtain ⟨d, bound, leading, ds, shape⟩ := exists_leading_digit positive
    have digits := trace_digits (isDigit_of_toDigits shape) false [digitValue d.digitChar]
    rw [literal?, shape, List.map_cons, trace, step, start_digitChar d bound leading, digits]
    simp [Stage.complete]

theorem literal?_minus {n : Nat} (positive : 0 < n) :
    literal? (some '-' :: (Nat.toDigits 10 n).map some) =
      some ⟨true, ((Nat.toDigits 10 n).map digitValue).reverse, none, none⟩ := by
  obtain ⟨d, bound, leading, ds, shape⟩ := exists_leading_digit positive
  have digits := trace_digits (isDigit_of_toDigits shape) true [digitValue d.digitChar]
  have minus : step .blank (some '-') = (.number .sign ⟨true, [], none, none⟩, []) := rfl
  rw [literal?, shape, List.map_cons, trace, minus, trace, sign_digitChar d bound leading, digits]
  simp [Stage.complete]

end Lexer

namespace Number

open Lexer

theorem numeral_toDigits (n : Nat) : numeral ((Nat.toDigits 10 n).map digitValue) = n := by
  rw [numeral_digitValues, Nat.ofDigitChars_ten_toDigits]

theorem reread?_natural (n : UInt64) : (natural n).reread? = some (natural n) := by
  have bound : n.toNat < wordLimit := n.toNat_lt
  have digits := literal?_digits n.toNat
  rw [reread?, write, Nat.toString_eq_ofList_toDigits, symbolsOf, String.toList_ofList, digits]
  simp [ofLiteral?, Literal.ordered, Literal.isWhole, numeral_toDigits, bound]

theorem reread?_negative {n : Int64} (h : n < 0) : (negative n).reread? = some (negative n) := by
  have below : n.toInt < 0 := by simpa using Int64.lt_iff_toInt_lt.1 h
  have least := n.le_toInt
  obtain ⟨m, size⟩ : ∃ m : Nat, n.toInt = -m := ⟨(-n.toInt).toNat, by omega⟩
  have positive : 0 < m := by omega
  have bound : m ≤ signLimit := by
    rw [signLimit]
    omega
  have word : m < wordLimit := Nat.lt_of_le_of_lt bound (by decide)
  have value : -Int64.ofInt m = n := by rw [← Int64.ofInt_neg, ← size, Int64.ofInt_toInt]
  have text : (negative n).write = "-" ++ m.repr := by
    change n.toInt.repr = _
    rw [size, Int.repr_eq_if, if_neg (by omega), Int.neg_neg, Int.toNat_natCast]
  have symbols : symbolsOf (negative n).write = some '-' :: (Nat.toDigits 10 m).map some := by
    rw [text, symbolsOf, String.toList_append, ← Nat.toString_eq_repr,
      Nat.toString_eq_ofList_toDigits]
    simp
  rw [reread?, symbols, literal?_minus positive]
  simp [ofLiteral?, Literal.ordered, Literal.isWhole, numeral_toDigits, bound, word, positive,
    value]

end Number

end GraphDispatch.Json
