import GraphDispatch.Files.Tree
import GraphDispatch.Proofs.Success
import Mathlib.Data.String.Basic

/-!
# Paths and where they lead

The steps of a path make up the path. Where it leads depends on nothing but the directories of a
tree. A path without detours leads to the entry that it names, so different paths of this kind do
not lead to the same entry.
-/

namespace GraphDispatch.FileTree

section Steps

open String

/-- The characters in `l` are split already, and those in `m` come after the last slash. -/
theorem splitOnAux_slash (l m r : List Char) (steps : List String) :
    (ofList (l ++ m ++ r)).splitOnAux "/" ⟨utf8Len l⟩ ⟨utf8Len l + utf8Len m⟩ 0 steps =
      steps.reverse ++ (List.splitOnPPrepend (· == '/') r m.reverse).map ofList := by
  induction r generalizing l m steps with
  | nil =>
    have ended := (atEnd_of_valid (l ++ m) []).2 rfl
    rw [utf8Len_append] at ended
    rw [splitOnAux, if_pos ended, extract_of_valid]
    simp
  | cons c r ih =>
    have more : ¬Pos.Raw.atEnd (ofList (l ++ m ++ c :: r)) ⟨utf8Len l + utf8Len m⟩ = true := by
      rw [← utf8Len_append, atEnd_of_valid]
      simp
    have char := get_of_valid (l ++ m) (c :: r)
    have next := next_of_valid (l ++ m) c r
    rw [utf8Len_append] at char next
    rw [splitOnAux, if_neg more, char, show Pos.Raw.get "/" 0 = '/' by decide +kernel,
      show Pos.Raw.next "/" 0 = ⟨1⟩ by decide +kernel, List.headD_cons,
      List.splitOnPPrepend_cons_eq_if]
    by_cases slash : c = '/'
    · subst slash
      have back : Pos.Raw.unoffsetBy ⟨utf8Len l + utf8Len m + '/'.utf8Size⟩ ⟨1⟩ =
          ⟨utf8Len l + utf8Len m⟩ := rfl
      have rest := ih (l ++ m ++ ['/']) [] (ofList m :: steps)
      rw [if_pos (beq_self_eq_true _), if_pos (beq_self_eq_true _), next]
      dsimp only
      rw [if_pos (by decide +kernel), back, extract_of_valid]
      simpa [-ofList_append, utf8Len_append, Nat.add_assoc] using rest
    · have differs : ¬(c == '/') = true := by simpa using slash
      have back : Pos.Raw.unoffsetBy ⟨utf8Len l + utf8Len m⟩ 0 = ⟨utf8Len l + utf8Len m⟩ := rfl
      have rest := ih l (m ++ [c]) steps
      rw [if_neg differs, if_neg differs, back, next]
      simpa [-ofList_append, utf8Len_append, Nat.add_assoc] using rest

theorem splitOn_slash (path : String) :
    path.splitOn "/" = (path.toList.splitOn '/').map ofList := by
  have steps := splitOnAux_slash [] [] path.toList []
  rw [List.nil_append, List.nil_append, ofList_toList] at steps
  rw [splitOn, if_neg (by decide)]
  exact steps

/-- The steps of a path make up the path. -/
theorem key_splitOn (path : String) : key (path.splitOn "/") = path := by
  have same : toList ∘ ofList = id := funext fun _ => toList_ofList
  rw [← toList_inj, key, toList_intercalate, splitOn_slash, List.map_map, same, List.map_id]
  exact List.intercalate_splitOn '/'

theorem splitOn_of_single {name : String} (h : '/' ∉ name.toList) : name.splitOn "/" = [name] := by
  rw [splitOn_slash, List.splitOn_eq_singleton h, List.map_singleton, ofList_toList]

end Steps

variable {t u : FileTree} {path other name : String} {here place steps : List String}

theorem enter_eq_ok : t.enter here = .ok () ↔ t.entryAt? here = some .directory := by
  unfold enter
  split <;> simp_all [pure, Except.pure, throw, throwThe, MonadExceptOf.throw]

/-- One step of a path that is followed. -/
def stride (t : FileTree) (here : List String) (step : String) :
    Except FileError (List String) := do
  t.enter here
  if stepLimit < step.utf8ByteSize then throw .nameTooLong
  return follow here step

theorem walk_eq (t : FileTree) (steps : List String) : t.walk steps = steps.foldlM t.stride [] :=
  rfl

theorem stride_eq_ok {step : String} : t.stride here step = .ok place ↔
    t.entryAt? here = some .directory ∧ step.utf8ByteSize ≤ stepLimit ∧
      place = follow here step := by
  constructor
  · intro h
    obtain ⟨⟨⟩, entered, h⟩ := except_bind_eq_ok h
    split at h
    · cases h
    · rename_i short
      cases h
      exact ⟨enter_eq_ok.1 entered, Nat.le_of_not_lt short, rfl⟩
  · rintro ⟨entered, short, rfl⟩
    rw [stride, enter_eq_ok.2 entered, if_neg (Nat.not_lt.2 short)]
    rfl

theorem foldlM_stride_cons {step : String} {start : List String}
    (h : (step :: steps).foldlM t.stride start = .ok here) :
    t.stride start step = .ok (follow start step) ∧
      steps.foldlM t.stride (follow start step) = .ok here := by
  rw [List.foldlM_cons] at h
  obtain ⟨next, first, rest⟩ := except_bind_eq_ok h
  obtain ⟨-, -, rfl⟩ := stride_eq_ok.1 first
  exact ⟨first, rest⟩

/-- Where all directories stay, a path still leads where it led. -/
theorem walk_of_directories
    (h : ∀ here, t.entryAt? here = some .directory → u.entryAt? here = some .directory)
    (walked : t.walk steps = .ok place) : u.walk steps = .ok place := by
  rw [walk_eq] at walked ⊢
  generalize ([] : List String) = start at walked ⊢
  induction steps generalizing start with
  | nil => exact walked
  | cons step steps ih =>
    obtain ⟨first, rest⟩ := foldlM_stride_cons walked
    obtain ⟨entered, short, -⟩ := stride_eq_ok.1 first
    rw [List.foldlM_cons, stride_eq_ok.2 ⟨h _ entered, short, rfl⟩]
    exact ih _ rest

theorem locate_eq_ok : t.locate path = .ok place ↔
    checkPath path = .ok () ∧ t.walk (path.splitOn "/") = .ok place := by
  constructor
  · intro h
    obtain ⟨⟨⟩, checked, walked⟩ := except_bind_eq_ok h
    exact ⟨checked, walked⟩
  · rintro ⟨checked, walked⟩
    rw [locate, checked]
    exact walked

/-- The name of the entry that a path leads to. -/
def nameOf? (t : FileTree) (path : String) : Option String := (t.locate path).toOption.map key

theorem nameOf?_eq_some :
    t.nameOf? path = some name ↔ ∃ place, t.locate path = .ok place ∧ key place = name := by
  unfold nameOf?
  cases t.locate path <;> simp [Except.toOption]

/-- No step of the path stays where it is or goes back. -/
def Direct (path : String) : Prop :=
  ∀ step ∈ path.splitOn "/", step ≠ "" ∧ step ≠ "." ∧ step ≠ ".."

theorem Direct.nameOf? (direct : Direct path) (h : t.nameOf? path = some name) : name = path := by
  obtain ⟨place, located, rfl⟩ := nameOf?_eq_some.1 h
  obtain ⟨-, walked⟩ := locate_eq_ok.1 located
  have goesOn : ∀ start, (path.splitOn "/").foldlM t.stride start = .ok place →
      place = start ++ path.splitOn "/" := by
    unfold Direct at direct
    generalize path.splitOn "/" = steps at direct
    clear located walked h
    induction steps with
    | nil =>
      intro start h
      cases h
      exact (List.append_nil _).symm
    | cons step steps ih =>
      obtain ⟨⟨named, moves, forward⟩, direct⟩ := List.forall_mem_cons.1 direct
      intro start h
      obtain ⟨-, rest⟩ := foldlM_stride_cons h
      have ahead : follow start step = start ++ [step] := by simp [follow, named, moves, forward]
      rw [ahead] at rest
      rw [ih direct _ rest, List.append_assoc, List.singleton_append]
  rw [goesOn [] walked, List.nil_append, key_splitOn]

/-- The paths lead to different entries, or are different and take no detours. -/
inductive Apart (t : FileTree) (path other : String) : Prop
  | places (h : t.nameOf? path ≠ t.nameOf? other)
  | names (direct : Direct path) (direct' : Direct other) (h : path ≠ other)

theorem Apart.nameOf?_ne (apart : t.Apart path other) (found : t.nameOf? path = some name) :
    t.nameOf? other ≠ some name := by
  intro found'
  cases apart with
  | places differ => exact differ (found.trans found'.symm)
  | names direct direct' differ =>
    exact differ ((direct.nameOf? found).symm.trans (direct'.nameOf? found'))

end GraphDispatch.FileTree
