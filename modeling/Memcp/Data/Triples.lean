import Mathlib.Data.List.Basic

/-!
Replacing three elements in a row wherever they have a replacement, the leftmost
first and none of them twice.
-/

namespace List

variable {α : Type} {out : α → α → α → Option (List α)}

def replaceTriples (out : α → α → α → Option (List α)) : List α → List α
  | a :: tail@(b :: c :: rest) =>
      match out a b c with
      | some new => new ++ replaceTriples out rest
      | none => a :: replaceTriples out tail
  | items => items

theorem replaceTriples_match {a b c : α} {new : List α} (found : out a b c = some new)
    (rest : List α) :
    replaceTriples out (a :: b :: c :: rest) = new ++ replaceTriples out rest := by
  rw [replaceTriples, found]

theorem replaceTriples_cons {a : α} {items : List α}
    (none : ∀ b c rest, items = b :: c :: rest → out a b c = none) :
    replaceTriples out (a :: items) = a :: replaceTriples out items := by
  cases items with
  | nil => simp [replaceTriples]
  | cons b items =>
      cases items with
      | nil => simp [replaceTriples]
      | cons c rest => rw [replaceTriples, none b c rest rfl]

/-- Three elements at the start of a list none of which starts a replaced triple. -/
theorem replaceTriples_skip {a b c : α} {rest : List α} (first : out a b c = none)
    (second : ∀ x, rest.head? = some x → out b c x = none)
    (third : ∀ x y, out c x y = none) :
    replaceTriples out (a :: b :: c :: rest) = a :: b :: c :: replaceTriples out rest := by
  rw [replaceTriples_cons, replaceTriples_cons, replaceTriples_cons]
  · intro x y _ _
    exact third x y
  · rintro _ x _ ⟨⟩
    exact second x rfl
  · rintro _ _ _ ⟨⟩
    exact first

/-- An element no replaced triple holds. -/
structure Inert (out : α → α → α → Option (List α)) (item : α) : Prop where
  first : ∀ x y, out item x y = none
  second : ∀ x y, out x item y = none
  third : ∀ x y, out x y item = none

/-- Such an element parts what is before it from what is after it. -/
theorem replaceTriples_append {item : α} (inert : Inert out item) (left right : List α) :
    replaceTriples out (left ++ item :: right) =
      replaceTriples out left ++ item :: replaceTriples out right := by
  have start : replaceTriples out (item :: right) = item :: replaceTriples out right :=
    replaceTriples_cons fun b c _ _ => inert.first b c
  fun_induction replaceTriples out left with
  | case1 a b c rest new found induction =>
      rw [cons_append, cons_append, cons_append, replaceTriples_match found, induction,
        append_assoc]
  | case2 a b c rest none induction =>
      rw [cons_append, replaceTriples_cons, induction, cons_append]
      rintro _ _ _ ⟨⟩
      exact none
  | case3 items short =>
      rcases items with _ | ⟨a, _ | ⟨b, _ | ⟨c, rest⟩⟩⟩
      · exact start
      · rw [cons_append, replaceTriples_cons, nil_append, start]
        · rfl
        · rintro _ c _ ⟨⟩
          exact inert.second a c
      · rw [cons_append, replaceTriples_cons, cons_append, replaceTriples_cons, nil_append,
          start]
        · rfl
        · rintro _ c _ ⟨⟩
          exact inert.second b c
        · rintro _ _ _ ⟨⟩
          exact inert.third a b
      · exact (short a b c rest rfl).elim

theorem replaceTriples_block {block : List α} (inert : ∀ item ∈ block, Inert out item)
    (right : List α) :
    replaceTriples out (block ++ right) = block ++ replaceTriples out right := by
  induction block with
  | nil => rfl
  | cons item block induction =>
      obtain ⟨head, tail⟩ := forall_mem_cons.mp inert
      rw [cons_append, replaceTriples_cons fun b c _ _ => head.first b c, induction tail,
        cons_append]

end List
