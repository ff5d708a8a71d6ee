import GraphDispatch.Graph.Encoding
import GraphDispatch.Proofs.Json.Decoding

/-!
# Texts of graphs

Every part of a document is read from its text as it was written, field after field. The numbers in
single precision need texts that are read exactly.
-/

namespace GraphDispatch

open Json Json.Record

/-! ## Numbers in single precision -/

def Elements.singles : Elements Float32 → List Float32
  | .floats xs => xs
  | .ints _ => []

def Attribute.singles : Attribute Float32 → List Float32
  | .float x => [x]
  | .floats xs => xs
  | .tensor t => t.elements.singles
  | .int _ | .ints _ | .string _ => []

def Operation.singles (o : Operation Float32) : List Float32 :=
  o.attributes.values.flatMap (·.singles)

def Declaration.singles (d : Declaration Float32) : List Float32 :=
  (d.value.map (·.elements.singles)).getD []

/-- The numbers in the values and attributes that a document lists. -/
def Document.singles (d : Document Float32) : List Float32 :=
  d.vars.flatMap (·.singles) ++ d.operations.flatMap (·.singles)

def Graph.singles (g : Graph Float32) : List Float32 := (Document.ofGraph g).singles

/-- A reader takes the texts of the numbers for the numbers. -/
def Exact (xs : List Float32) : Prop := ∀ x ∈ xs, (Number.single x).ReadsAs x

namespace Encoding

/-! ## Numbers, names and lists -/

theorem recovers_int (n : Int64) : Recovers Decoder.int64 (int n) n := by
  unfold int
  split
  · rename_i negative
    rw [Recovers, Value.stored, Value.reread, Number.reread, Number.reread?_negative negative]
    rfl
  · rename_i natural
    have bound := n.toInt_lt
    have nonneg : 0 ≤ n.toInt := by simpa [Int64.lt_iff_toInt_lt] using natural
    have size : (UInt64.ofNat n.toInt.toNat).toNat = n.toInt.toNat := by
      rw [UInt64.toNat_ofNat']
      omega
    have fits : n.toInt.toNat < Decimal.signLimit := by
      rw [Decimal.signLimit]
      omega
    have back : Int64.ofNat n.toInt.toNat = n := by
      rw [← Int64.ofInt_eq_ofNat, Int.toNat_of_nonneg nonneg, Int64.ofInt_toInt]
    rw [Recovers, Value.stored, Value.reread, Number.reread, Number.reread?_natural]
    change (if (UInt64.ofNat n.toInt.toNat).toNat < Decimal.signLimit then
      Except.ok (Int64.ofNat (UInt64.ofNat n.toInt.toNat).toNat) else _) = _
    rw [size, if_pos fits, back]

theorem legible_int (n : Int64) (m : Nat) : (int n).Legible m := by
  unfold int
  split
  · rename_i negative
    rw [Value.legible_number, Number.reread?_negative negative]
    rfl
  · exact Value.legible_natural _

theorem legible_single {x : Float32} (exact : (Number.single x).ReadsAs x) (m : Nat) :
    (single x).Legible m := by
  obtain ⟨_, read, -⟩ := Option.bind_eq_some_iff.1 exact
  exact Value.legible_number.2 (Option.isSome_iff_exists.2 ⟨_, read⟩)

theorem recovers_strings (names : List String) :
    Recovers Decoding.strings (strings names) names :=
  recovers_list fun _ _ => rfl

theorem legible_strings (names : List String) (m : Nat) : (strings names).Legible (m + 1) :=
  Value.legible_array.2 (by simp)

theorem streams_int (n : Int64) : Streams Decoder.int64 (int n) n :=
  (recovers_int n).streams_number fun m => by cases m <;> rfl

theorem streams_ints (ns : List Int64) :
    Streams (Decoder.list Decoder.int64) (.array (ns.map int)) ns :=
  streams_list fun n _ => streams_int n

theorem legible_ints (ns : List Int64) (n : Nat) : (Value.array (ns.map int)).Legible (n + 1) :=
  Value.legible_array.2 (List.forall_mem_map.2 fun k _ => legible_int k n)

theorem streams_singles {xs : List Float32} (exact : Exact xs) :
    Streams (Decoder.list Decoder.single) (.array (xs.map single)) xs :=
  streams_list fun x hx => streams_single (exact x hx)

theorem legible_singles {xs : List Float32} (exact : Exact xs) (n : Nat) :
    (Value.array (xs.map single)).Legible (n + 1) :=
  Value.legible_array.2 (List.forall_mem_map.2 fun x hx => legible_single (exact x hx) n)

theorem streams_strings (names : List String) : Streams Decoding.strings (strings names) names :=
  streams_list fun _ _ => rfl

theorem streams_platform (p : Platform) : Streams Decoding.platform (platform p) p := by
  cases p <;> rfl

/-! ## Tensors and attributes -/

/-- The kind of the numbers comes before them. -/
theorem streams_kind {isFloat : Bool} {kind : String} {values : Value} {e : Elements Float32}
    (named : Decoder.variant Decoding.numberKinds .streamed (.string kind) = .ok isFloat)
    (h : Streams (Decoding.elementsOf isFloat) values e) :
    Streams Decoding.elements (.object [("dtype", .string kind), ("values", values)]) e := by
  have told : (Decoding.numberKind (Decoder.variant Decoding.numberKinds)).put .streamed
      (Value.string kind).outline .empty = .ok ⟨some isFloat, none, .floats []⟩ :=
    congrArg (· >>= _) named
  have fills : Fills .streamed
      [Decoding.numberKind (Decoder.variant Decoding.numberKinds), Decoding.numbers]
      Decoding.ElementsDraft.empty [("dtype", .string kind), ("values", values.reread)]
      ⟨some isFloat, none, e⟩ :=
    .cons rfl told (.cons rfl (congrArg (· >>= _) h) (.nil _))
  have read := fills.ofObject (by simp) (by simp [Decoding.numberKind, Decoding.numbers])
  exact congrArg (· >>= fun d => return d.elements) read

theorem streams_elements {e : Elements Float32} (exact : Exact e.singles) :
    Streams Decoding.elements (elements e) e := by
  cases e with
  | floats xs =>
    refine streams_kind rfl ?_
    exact congrArg (Elements.floats <$> ·) (streams_singles exact)
  | ints ns =>
    refine streams_kind rfl ?_
    exact congrArg (Elements.ints <$> ·) (streams_ints ns)

theorem streams_tensor {t : Tensor Float32} (exact : Exact t.elements.singles) :
    Streams Decoding.tensor (tensor t) t := by
  have shape : Streams (Decoder.list Decoder.word) (.array (t.shape.map word)) t.shape :=
    streams_list fun n _ => streams_word n
  refine Fills.streams ?_ (Value.reread_object _) (by simp) (by simp) _
  refine .cons rfl (Field.put_of_streams shape) ?_
  refine .cons rfl (Field.put_of_streams (streams_elements exact)) ?_
  exact .nil t

theorem streams_attr {a : Attribute Float32} (exact : Exact a.singles) :
    Streams Decoding.attr (attr a) a := by
  cases a with
  | int n => exact streams_carrying rfl (congrArg (Attribute.int <$> ·) (streams_int n))
  | float x =>
    exact streams_carrying rfl
      (congrArg (Attribute.float <$> ·) (streams_single (exact x List.mem_cons_self)))
  | ints ns => exact streams_carrying rfl (congrArg (Attribute.ints <$> ·) (streams_ints ns))
  | floats xs =>
    exact streams_carrying rfl (congrArg (Attribute.floats <$> ·) (streams_singles exact))
  | string s => rfl
  | tensor t =>
    exact streams_carrying rfl (congrArg (Attribute.tensor <$> ·) (streams_tensor exact))

/-! ## Documents -/

theorem streams_declaration {d : Declaration Float32} (exact : Exact d.singles) :
    Streams Decoding.declaration (declaration d) d := by
  obtain ⟨name, value, isParameter⟩ := d
  cases value with
  | none =>
    refine Fills.streams ?_ (Value.reread_object _) (by simp) (by simp) _
    exact .cons rfl rfl (.cons rfl rfl (.nil _))
  | some t =>
    have value : Streams (Decoder.option Decoding.tensor) (tensor t) (some t) := by
      refine Decoder.option_of_present ?_ (streams_tensor exact)
      rw [tensor, Value.reread_object]
      nofun
    refine Fills.streams ?_ (Value.reread_object _) (by simp) (by simp) _
    refine .cons rfl rfl (.cons rfl (Field.put_of_streams value) (.cons rfl rfl ?_))
    exact .nil _

theorem streams_operation {o : Operation Float32} (exact : Exact o.singles) :
    Streams Decoding.operation (operation o) o := by
  have attributes : Streams (Decoder.map Decoding.attr) (attributes o.attributes) o.attributes := by
    refine streams_map fun k a found => streams_attr fun x hx => ?_
    exact exact x (List.mem_flatMap.2 ⟨a, NameMap.mem_values.2 ⟨k, found⟩, hx⟩)
  refine Fills.streams ?_ (Value.reread_object _) (by simp) (by simp) _
  refine .cons rfl rfl (.cons rfl rfl (.cons rfl (Field.put_of_streams attributes) ?_))
  refine .cons rfl (Field.put_of_streams (streams_strings _)) ?_
  refine .cons rfl (Field.put_of_streams (streams_strings _)) ?_
  refine .cons rfl (Field.put_of_streams (streams_platform _)) ?_
  exact .nil _

theorem streams_document {d : Document Float32} (exact : Exact d.singles) :
    Streams Decoding.document (document d) d := by
  have vars : Streams (Decoder.list Decoding.declaration) (.array (d.vars.map declaration))
      d.vars := streams_list fun v hv => streams_declaration fun x hx =>
    exact x (List.mem_append_left _ (List.mem_flatMap.2 ⟨v, hv, hx⟩))
  have operations : Streams (Decoder.list Decoding.operation) (.array (d.operations.map operation))
      d.operations := streams_list fun o ho => streams_operation fun x hx =>
    exact x (List.mem_append_right _ (List.mem_flatMap.2 ⟨o, ho, hx⟩))
  refine Fills.streams ?_ (Value.reread_object _) (by simp) (by simp) _
  refine .cons rfl rfl (.cons rfl (Field.put_of_streams (streams_strings _)) ?_)
  refine .cons rfl (Field.put_of_streams (streams_strings _)) ?_
  refine .cons rfl (Field.put_of_streams vars) ?_
  refine .cons rfl (Field.put_of_streams operations) ?_
  exact .nil _

/-! ## Texts -/

theorem legible_elements {e : Elements Float32} (exact : Exact e.singles) :
    (elements e).Legible 2 := by
  cases e with
  | floats xs =>
    have values : (Value.array (xs.map single)).Legible 1 := legible_singles exact 0
    exact Value.legible_object.2 (by simp [values])
  | ints ns => exact Value.legible_object.2 (by simp [legible_ints ns 0])

theorem legible_tensor {t : Tensor Float32} (exact : Exact t.elements.singles) :
    (tensor t).Legible 3 := by
  have shape : (Value.array (t.shape.map word)).Legible 2 :=
    Value.legible_array.2 (List.forall_mem_map.2 fun n _ => Value.legible_natural n)
  exact Value.legible_object.2 (by simp [shape, legible_elements exact])

/-- The contents of a variant stand in an object of their own. -/
theorem legible_carried {v : Value} {n : Nat} (h : v.Legible n) (name : String) :
    (Value.object [(name, v)]).Legible (n + 1) := Value.legible_object.2 (by simpa using h)

theorem legible_attr {a : Attribute Float32} (exact : Exact a.singles) : (attr a).Legible 4 := by
  cases a with
  | int n => exact legible_carried (legible_int n 3) _
  | float x => exact legible_carried (legible_single (exact x List.mem_cons_self) 3) _
  | ints ns => exact legible_carried (legible_ints ns 2) _
  | floats xs => exact legible_carried (legible_singles exact 2) _
  | string s => exact legible_carried (Value.legible_string s) _
  | tensor t => exact legible_carried (legible_tensor exact) _

theorem legible_declaration {d : Declaration Float32} (exact : Exact d.singles) :
    (declaration d).Legible 4 := by
  obtain ⟨name, value, isParameter⟩ := d
  cases value with
  | none => exact Value.legible_object.2 (by simp)
  | some t =>
    have value := legible_tensor (t := t) exact
    exact Value.legible_object.2 (by simp [value])

theorem legible_operation {o : Operation Float32} (exact : Exact o.singles) :
    (operation o).Legible 6 := by
  have attributes : (attributes o.attributes).Legible 5 := by
    refine Value.legible_object.2 (List.forall_mem_map.2 fun e he => legible_attr fun x hx => ?_)
    exact exact x (List.mem_flatMap.2 ⟨e.2, List.mem_map_of_mem he, hx⟩)
  exact Value.legible_object.2
    (by simp [platform, attributes, legible_strings o.inputs 4, legible_strings o.outputs 4])

theorem legible_document {d : Document Float32} (exact : Exact d.singles) :
    (document d).Legible 8 := by
  have vars : (Value.array (d.vars.map declaration)).Legible 7 :=
    Value.legible_array.2 (List.forall_mem_map.2 fun v hv =>
      (legible_declaration fun x hx =>
        exact x (List.mem_append_left _ (List.mem_flatMap.2 ⟨v, hv, hx⟩))).mono (by decide))
  have operations : (Value.array (d.operations.map operation)).Legible 7 :=
    Value.legible_array.2 (List.forall_mem_map.2 fun o ho => legible_operation fun x hx =>
      exact x (List.mem_append_right _ (List.mem_flatMap.2 ⟨o, ho, hx⟩)))
  exact Value.legible_object.2
    (by simp [vars, operations, legible_strings d.inputs 6, legible_strings d.outputs 6])

end Encoding

/-- A graph is read from its text if it is built from its document. -/
theorem Graph.ofSymbols_text {g : Graph Float32} (built : (Document.ofGraph g).build = .ok g)
    (exact : Exact g.singles) : Graph.ofSymbols (symbolsOf g.text) = .ok g := by
  have legible : (Encoding.document (.ofGraph g)).Legible Outline.depthLimit :=
    (Encoding.legible_document exact).mono (by decide)
  have outlined := Value.outline_of_spells
    (Lexer.spells_compact (Encoding.document (.ofGraph g)).tokens_chain) legible
  have decoded : Graph.ofOutline .streamed (Encoding.document (.ofGraph g)).reread.outline =
      .ok g := by
    rw [Graph.ofOutline, show Decoding.document .streamed _ = _ from
      Encoding.streams_document exact]
    dsimp only
    rw [built]
    rfl
  rw [Graph.ofSymbols, Graph.text, Value.compact, outlined]
  exact congrArg (· >>= fun g => return g) decoded

end GraphDispatch
