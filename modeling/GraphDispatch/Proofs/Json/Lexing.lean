import GraphDispatch.Json.Lexer

/-!
# Texts of tokens

`Passes` follows the automaton over a part of a text, whatever stands behind it. A text that
spells out tokens, with blanks between them, is read as these tokens: strings as they are, and
numbers as a reader takes their texts. A number ends at the symbol behind it, so something with
which no number goes on must stand there.
-/

namespace GraphDispatch.Json

/-- A text as a reader gets it. -/
abbrev symbolsOf (s : String) : List Symbol := s.toList.map some

namespace Lexer

variable {m m' m'' : Mode} {text text' : List Symbol} {found found' : List Lexeme}

/-- Over `text` the automaton goes from `m` to `m'` and finds lexemes. -/
def Passes (m : Mode) (text : List Symbol) (m' : Mode) (found : List Lexeme) : Prop :=
  ∀ done rest, scan m done (text ++ rest) = scan m' (found.reverse ++ done) rest

namespace Passes

theorem nil (m : Mode) : Passes m [] m [] := fun _ _ => rfl

theorem cons {s : Symbol} (first : step m s = (m', found)) (rest : Passes m' text m'' found') :
    Passes m (s :: text) m'' (found ++ found') := by
  intro done more
  rw [List.cons_append, scan, first, List.reverse_append, List.append_assoc]
  exact rest _ more

/-- A symbol that completes no lexeme. -/
theorem silent {s : Symbol} {k : Mode} (first : step m s = (k, []))
    (rest : Passes k text m' found) : Passes m (s :: text) m' found := cons first rest

theorem append (h : Passes m text m' found) (h' : Passes m' text' m'' found') :
    Passes m (text ++ text') m'' (found ++ found') := by
  intro done rest
  rw [List.append_assoc, h, h', List.reverse_append, List.append_assoc]

end Passes

/-- Where the automaton gets to over a text, and what it finds. -/
def trace : Mode → List Symbol → Mode × List Lexeme
  | m, [] => (m, [])
  | m, s :: rest => ((trace (step m s).1 rest).1, (step m s).2 ++ (trace (step m s).1 rest).2)

theorem passes_trace (m : Mode) (text : List Symbol) :
    Passes m text (trace m text).1 (trace m text).2 := by
  induction text generalizing m with
  | nil => exact .nil m
  | cons s rest ih => exact .cons rfl (ih _)

/-! ## Numbers -/

/-- The literal that a text is, if it is that of a number. -/
def literal? (text : List Symbol) : Option Decimal.Literal :=
  match trace .blank text with
  | (.number stage l, []) => if stage.complete then some l else none
  | _ => none

theorem literal?_eq_some {l : Decimal.Literal} (h : literal? text = some l) :
    ∃ stage, stage.complete = true ∧ Passes .blank text (.number stage l) [] := by
  have passes := passes_trace .blank text
  unfold literal? at h
  split at h
  · rename_i stage l' found
    rw [found] at passes
    split at h
    · rename_i complete
      cases h
      exact ⟨stage, complete, passes⟩
    · cases h
  · cases h

/-- The symbols at which a number ends. -/
def delimiters : List Char := [' ', '\n', '\t', '\r', ',', ']', '}']

/-- No number goes on at the beginning of the text. -/
def Delimited (text : List Symbol) : Prop := ∀ s ∈ text.head?, ∃ d ∈ delimiters, s = some d

theorem delimited_cons {d : Char} (h : d ∈ delimiters) (rest : List Symbol) :
    Delimited (some d :: rest) := by
  intro s hs
  cases hs
  exact ⟨d, h, rfl⟩

theorem digit?_delimiter : ∀ d ∈ delimiters, digit? d = none := by simp [delimiters, digit?]

theorem continueNumber_delimiter {d : Char} (h : d ∈ delimiters) {stage : Stage}
    (complete : stage.complete = true) (l : Decimal.Literal) :
    continueNumber stage l d = none := by
  have plain : d ≠ '.' ∧ d ≠ 'e' ∧ d ≠ 'E' := by
    revert d
    simp [delimiters]
  cases stage with
  | zero | whole | fraction | power => simp [continueNumber, digit?_delimiter d h, plain]
  | sign | point | mark | markSign => cases complete

/-- Where a number ends, reading begins anew. -/
theorem scan_number {stage : Stage} (complete : stage.complete = true) (l : Decimal.Literal)
    (done : List Lexeme) {rest : List Symbol} (delimited : Delimited rest) :
    scan (.number stage l) done rest = scan .blank (numberLexeme l :: done) rest := by
  cases rest with
  | nil => simp [scan, Mode.finish, complete]
  | cons s rest =>
    obtain ⟨d, hd, rfl⟩ := delimited s rfl
    have ends : step (.number stage l) (some d) =
        ((start (some d)).1, numberLexeme l :: (start (some d)).2) := by
      simp [step, stepNumber, continueNumber_delimiter hd complete, digit?_delimiter d hd,
        complete]
    rw [scan, ends, scan]
    simp [step]

end Lexer

namespace Number

open Lexer

/-- The number that a reader takes the text of a number for. -/
def reread? (n : Number) : Option Number :=
  (literal? (symbolsOf n.write)).bind fun l => ofLiteral? l.ordered

def reread (n : Number) : Number := n.reread?.getD n

theorem scan_write {n : Number} (readable : n.reread?.isSome) {rest : List Symbol}
    (delimited : Delimited rest) (done : List Lexeme) :
    scan .blank done (symbolsOf n.write ++ rest) =
      scan .blank (.token (.number n.reread) :: done) rest := by
  obtain ⟨m, hm⟩ := Option.isSome_iff_exists.1 readable
  have same : n.reread = m := by rw [reread, hm, Option.getD_some]
  obtain ⟨l, hl, hm⟩ := Option.bind_eq_some_iff.1 hm
  obtain ⟨stage, complete, passes⟩ := literal?_eq_some hl
  rw [passes, scan_number complete l _ delimited, same, numberLexeme, hm]
  rfl

end Number

namespace Lexer

/-! ## Strings -/

/-- What the contents of a string hold for a character. -/
def pieceOf (c : Char) : Piece :=
  if c.toNat < 32 ∧ c ∉ ['\n', '\r', '\t', Char.ofNat 8, Char.ofNat 12] then .unit c.toNat
  else .char c

theorem characters_unit {n : Nat} (trailing : isTrailing n = false) (leading : isLeading n = false)
    (pieces : List Piece) :
    characters (.unit n :: pieces) = (characters pieces).map (Char.ofNat n :: ·) := by
  cases pieces with
  | nil => simp [characters, trailing, leading]
  | cons p pieces => cases p <;> simp [characters, trailing, leading]

theorem characters_pieceOf (c : Char) (pieces : List Piece) :
    characters (pieceOf c :: pieces) = (characters pieces).map (c :: ·) := by
  unfold pieceOf
  split
  · rename_i control
    have trailing : isTrailing c.toNat = false := by
      simp [isTrailing]
      omega
    have leading : isLeading c.toNat = false := by
      simp [isLeading]
      omega
    rw [characters_unit trailing leading, Char.ofNat_toNat]
  · rw [characters]

theorem characters_pieces (cs : List Char) : characters (cs.map pieceOf) = some cs := by
  induction cs with
  | nil => rfl
  | cons c cs ih => rw [List.map_cons, characters_pieceOf, ih, Option.map_some]

theorem hexDigit?_hexDigit : ∀ n < 16, hexDigit? (hexDigit n) = some n := by decide

theorem utf8Size_hexDigit : ∀ n < 16, (hexDigit n).utf8Size = 1 := by decide

theorem stepCode_hexDigit (pieces : List Piece) {size n : Nat} (v : Nat) (hn : n < 16) :
    stepCode pieces size (some v) (some (hexDigit n)) =
      if size < 3 then (.code pieces (size + 1) (some (v * 16 + n)), [])
      else (.string (.unit (v * 16 + n) :: pieces), []) := by
  by_cases more : size < 3
  · simp [stepCode, utf8Size_hexDigit n hn, hexDigit?_hexDigit n hn, more]
  · simp [stepCode, utf8Size_hexDigit n hn, hexDigit?_hexDigit n hn, more, Nat.le_of_not_lt more]

/-- The four digits of a control character. -/
theorem passes_code (pieces : List Piece) {n : Nat} (hn : n < 32) :
    Passes (.code pieces 0 (some 0)) (['0', '0', hexDigit (n / 16), hexDigit (n % 16)].map some)
      (.string (.unit n :: pieces)) [] := by
  have high : n / 16 < 16 := by omega
  have low : n % 16 < 16 := by omega
  have value : n / 16 * 16 + n % 16 = n := by omega
  refine .silent (k := .code pieces 1 (some 0)) rfl ?_
  refine .silent (k := .code pieces 2 (some 0)) rfl ?_
  refine .silent (k := .code pieces 3 (some (n / 16))) ?_ (.silent ?_ (.nil _))
  · simp [step, stepCode_hexDigit pieces 0 high]
  · simp [step, stepCode_hexDigit pieces _ low, value]

/-- A character is read back from how it is written, whatever was read before. -/
theorem passes_escape (pieces : List Piece) (c : Char) :
    Passes (.string pieces) ((escape c).map some) (.string (pieceOf c :: pieces)) [] := by
  unfold escape
  split
  · exact .silent rfl (.silent rfl (.nil _))
  · exact .silent rfl (.silent rfl (.nil _))
  · exact .silent rfl (.silent rfl (.nil _))
  · exact .silent rfl (.silent rfl (.nil _))
  · exact .silent rfl (.silent rfl (.nil _))
  · rename_i quote backslash newline carriage tab
    split
    · rename_i h
      subst h
      exact .silent rfl (.silent rfl (.nil _))
    split
    · rename_i h
      subst h
      exact .silent rfl (.silent rfl (.nil _))
    rename_i backspace feed
    have listed : c ∉ ['\n', '\r', '\t', Char.ofNat 8, Char.ofNat 12] := by
      simp only [List.mem_cons, List.not_mem_nil, or_false, not_or]
      exact ⟨newline, carriage, tab, backspace, feed⟩
    split
    · rename_i control
      rw [pieceOf, if_pos ⟨control, listed⟩]
      exact .silent rfl (.silent rfl (passes_code pieces control))
    · rename_i plain
      rw [pieceOf, if_neg fun h => plain h.1]
      refine .silent ?_ (.nil _)
      simp [step, show c ≠ '"' from quote, show c ≠ '\\' from backslash, plain]

theorem passes_contents (pieces : List Piece) (cs : List Char) :
    Passes (.string pieces) ((cs.flatMap escape).map some)
      (.string ((cs.map pieceOf).reverse ++ pieces)) [] := by
  induction cs generalizing pieces with
  | nil => exact .nil _
  | cons c cs ih =>
    rw [List.flatMap_cons, List.map_append, List.map_cons, List.reverse_cons, List.append_assoc]
    exact (passes_escape pieces c).append (ih _)

theorem passes_quote (s : String) :
    Passes .blank (symbolsOf (quote s)) .blank [.token (.string s)] := by
  have last : step (.string ((s.toList.map pieceOf).reverse ++ [])) (some '"') =
      (.blank, [.token (.string s)]) := by
    simp [step, stringLexeme, characters_pieces]
  rw [symbolsOf, quote, String.toList_ofList, List.map_cons, List.map_append]
  exact .silent rfl ((passes_contents [] s.toList).append (.cons last (.nil _)))

end Lexer

/-! ## Tokens -/

namespace Token

/-- The token that a reader takes the text of a token for. -/
def reread : Token → Token
  | number n => number n.reread
  | t => t

/-- A number must be one for a reader too. -/
def Readable : Token → Prop
  | number n => n.reread?.isSome
  | _ => True

end Token

namespace Lexer

/-- The text consists of the tokens and of blanks. -/
inductive Spells : List Token → List Symbol → Prop
  | nil : Spells [] []
  | blank {ts : List Token} {text : List Symbol} {c : Char} (h : isBlank c = true) :
      Spells ts text → Spells ts (some c :: text)
  | token {ts : List Token} {text : List Symbol} (t : Token)
      (ends : ∀ n, t = .number n → Delimited text) :
      Spells ts text → Spells (t :: ts) (symbolsOf t.text ++ text)

theorem start_blank {c : Char} (h : isBlank c = true) : start (some c) = (.blank, []) :=
  if_pos h

theorem passes_token {t : Token} (h : ∀ n, t ≠ .number n) :
    Passes .blank (symbolsOf t.text) .blank [.token t] := by
  cases t with
  | beginArray | endArray | beginObject | endObject | comma | colon => exact .cons rfl (.nil _)
  | null => exact .silent rfl (.silent rfl (.silent rfl (.cons rfl (.nil _))))
  | bool b =>
    cases b with
    | true => exact .silent rfl (.silent rfl (.silent rfl (.cons rfl (.nil _))))
    | false => exact .silent rfl (.silent rfl (.silent rfl (.silent rfl (.cons rfl (.nil _)))))
  | number n => exact absurd rfl (h n)
  | string s => exact passes_quote s

theorem scan_token {t : Token} (readable : t.Readable) {rest : List Symbol}
    (ends : ∀ n, t = .number n → Delimited rest) (done : List Lexeme) :
    scan .blank done (symbolsOf t.text ++ rest) = scan .blank (.token t.reread :: done) rest := by
  cases t with
  | number n => exact Number.scan_write readable (ends n rfl) done
  | beginArray | endArray | beginObject | endObject | comma | colon | null | bool | string =>
    exact passes_token (by simp) done rest

/-- A text that spells out tokens is read as these tokens. -/
theorem lexemes_of_spells {ts : List Token} {text : List Symbol} (h : Spells ts text)
    (readable : ∀ t ∈ ts, t.Readable) : lexemes text = ts.map fun t => .token t.reread := by
  have general : ∀ done, scan .blank done text =
      done.reverse ++ ts.map fun t => .token t.reread := by
    induction h with
    | nil => exact fun done => rfl
    | blank hc h ih =>
      intro done
      rw [scan, step, start_blank hc]
      exact ih readable done
    | token t ends h ih =>
      obtain ⟨first, rest⟩ := List.forall_mem_cons.1 readable
      intro done
      rw [scan_token first ends, ih rest, List.reverse_cons, List.append_assoc]
      rfl
  exact general []

end Lexer

end GraphDispatch.Json
