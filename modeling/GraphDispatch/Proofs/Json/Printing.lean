import GraphDispatch.Json.Printer
import GraphDispatch.Proofs.Json.Values
import Mathlib.Data.List.Chain

/-!
# Texts of values

In the tokens of a value a number stands at the end or in front of a comma or of a bracket that
closes. The text of the tokens puts something behind it with which no number goes on, so it spells
out the tokens.
-/

namespace GraphDispatch.Json

namespace Token

/-- Can stand behind a number. -/
def Closes (t : Token) : Prop := t = comma ∨ t = endArray ∨ t = endObject

/-- The second token can stand behind the first one. -/
def Precedes (t t' : Token) : Prop := ∀ n, t = number n → t'.Closes

variable {t : Token} {ts ts' : List Token}

theorem chain_cons (h : ∀ n, t ≠ number n) (chain : ts.IsChain Precedes) :
    (t :: ts).IsChain Precedes :=
  List.isChain_cons.2 ⟨fun _ _ n same => absurd same (h n), chain⟩

theorem chain_append (closes : t.Closes) (chain : ts.IsChain Precedes)
    (chain' : (t :: ts').IsChain Precedes) : (ts ++ t :: ts').IsChain Precedes := by
  refine List.isChain_append.2 ⟨chain, chain', ?_⟩
  intro _ _ _ next _ _
  cases next
  exact closes

end Token

namespace Value

open Token

theorem itemTokens_chain {items : List Value} (h : ∀ v ∈ items, v.tokens.IsChain Precedes) :
    (itemTokens items).IsChain Precedes := by
  induction items with
  | nil => exact .nil
  | cons v rest ih =>
    obtain ⟨first, others⟩ := List.forall_mem_cons.1 h
    cases rest with
    | nil => exact first
    | cons => exact chain_append (.inl rfl) first (chain_cons (by simp) (ih others))

theorem fieldTokens_chain {fields : List (String × Value)}
    (h : ∀ e ∈ fields, e.2.tokens.IsChain Precedes) : (fieldTokens fields).IsChain Precedes := by
  induction fields with
  | nil => exact .nil
  | cons e rest ih =>
    obtain ⟨first, others⟩ := List.forall_mem_cons.1 h
    have named : (.string e.1 :: .colon :: e.2.tokens : List Token).IsChain Precedes :=
      chain_cons (by simp) (chain_cons (by simp) first)
    cases rest with
    | nil => exact named
    | cons => exact chain_append (.inl rfl) named (chain_cons (by simp) (ih others))

theorem tokens_chain (v : Value) : v.tokens.IsChain Precedes := by
  induction v using induction with
  | null | bool | number | string => exact .singleton _
  | array items ih =>
    exact chain_cons (by simp)
      (chain_append (.inr (.inl rfl)) (itemTokens_chain ih) (.singleton _))
  | object fields ih =>
    exact chain_cons (by simp)
      (chain_append (.inr (.inr rfl)) (fieldTokens_chain ih) (.singleton _))

end Value

namespace Lexer

open Token

variable {ts : List Token} {text : List Symbol} {pieces : List String}

theorem symbolsOf_join (piece : String) (pieces : List String) :
    symbolsOf (String.join (piece :: pieces)) =
      symbolsOf piece ++ symbolsOf (String.join pieces) := by
  simp [symbolsOf, String.toList_join]

theorem Spells.blanks {cs : List Char} (h : ∀ c ∈ cs, isBlank c = true) (rest : Spells ts text) :
    Spells ts (cs.map some ++ text) := by
  induction cs with
  | nil => exact rest
  | cons c cs ih =>
    obtain ⟨first, others⟩ := List.forall_mem_cons.1 h
    exact .blank first (ih others)

theorem symbolsOf_lineBreak (width depth : Nat) :
    symbolsOf (lineBreak width depth) =
      some '\n' :: (List.replicate (width * depth) ' ').map some := by
  rw [symbolsOf, lineBreak, String.toList_ofList, List.map_cons]

theorem Spells.lineBreak (width depth : Nat) (rest : Spells ts text) :
    Spells ts (symbolsOf (lineBreak width depth) ++ text) := by
  rw [symbolsOf_lineBreak]
  refine .blank rfl (rest.blanks ?_)
  intro c hc
  rw [List.eq_of_mem_replicate hc]
  rfl

/-- A token other than a number. -/
theorem Spells.mark {t : Token} (h : ∀ n, t ≠ .number n) (rest : Spells ts text) :
    Spells (t :: ts) (symbolsOf t.text ++ text) :=
  .token t (fun n same => absurd same (h n)) rest

theorem delimited_pieces (width depth : Nat) {t : Token} (closes : t.Closes) (ts : List Token) :
    Delimited (symbolsOf (String.join (indentedPieces width depth (t :: ts)))) := by
  have comma : ',' ∈ delimiters := by decide
  have line : '\n' ∈ delimiters := by decide
  rcases closes with rfl | rfl | rfl <;> rw [indentedPieces, symbolsOf_join]
  · exact delimited_cons comma _
  · rw [symbolsOf_lineBreak]
    exact delimited_cons line _
  · rw [symbolsOf_lineBreak]
    exact delimited_cons line _

/-- The text of tokens spells them out, whatever the indentation. -/
theorem spells_pieces (width depth : Nat) (chain : ts.IsChain Precedes) :
    Spells ts (symbolsOf (String.join (indentedPieces width depth ts))) := by
  fun_induction indentedPieces width depth ts with
  | case1 => exact .nil
  | case2 depth rest ih | case3 depth rest ih =>
    rw [symbolsOf_join]
    exact .mark (by simp) (.mark (by simp) (ih chain.tail.tail))
  | case4 depth rest _ _ ih | case5 depth rest _ _ ih =>
    rw [symbolsOf_join, symbolsOf_join]
    exact .mark (by simp) (.lineBreak _ _ (ih chain.tail))
  | case6 depth rest _ _ ih | case7 depth rest _ _ ih =>
    rw [symbolsOf_join, symbolsOf_join]
    exact .lineBreak _ _ (.mark (by simp) (ih chain.tail))
  | case8 depth rest _ _ ih =>
    rw [symbolsOf_join, symbolsOf_join]
    exact .mark (by simp) (.lineBreak _ _ (ih chain.tail))
  | case9 depth rest _ _ ih =>
    rw [symbolsOf_join]
    exact .mark (by simp) (.blank rfl (ih chain.tail))
  | case10 depth rest t _ _ _ _ _ _ _ _ ih =>
    rw [symbolsOf_join]
    refine .token t ?_ (ih chain.tail)
    intro n same
    cases rest with
    | nil =>
      rw [indentedPieces]
      simp [Delimited, symbolsOf]
    | cons next rest =>
      exact delimited_pieces _ _ ((List.isChain_cons_cons.1 chain).1 n same) rest

/-- Without any blanks as well. -/
theorem spells_compact (chain : ts.IsChain Precedes) : Spells ts (symbolsOf (compactText ts)) := by
  induction ts with
  | nil => exact .nil
  | cons t ts ih =>
    rw [compactText, List.map_cons, symbolsOf_join]
    refine .token t ?_ (ih chain.tail)
    intro n same
    cases ts with
    | nil => simp [Delimited, symbolsOf]
    | cons next rest =>
      rw [List.map_cons, symbolsOf_join]
      rcases (List.isChain_cons_cons.1 chain).1 n same with rfl | rfl | rfl <;>
        exact delimited_cons (by decide) _

end Lexer

end GraphDispatch.Json
