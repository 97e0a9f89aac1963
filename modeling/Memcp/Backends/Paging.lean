import Memcp.Types

/-!
Following cursors.  A cursor is the number of the first memory of its page, as
text; Python reads a negative number as a place counted from the end.
-/

namespace Memcp

open Python

/-- `sys.maxsize`, the longest a list can be. -/
def maxSize : Nat := 2 ^ 63 - 1

section Cursors

variable {unicode : Unicode}

theorem cursorStart_toString (reads : unicode.ReadsDigits) (i : Int) :
    cursorStart unicode (some (toString i)) =
      if maxStrDigits < (Nat.toDigits 10 i.natAbs).length then
        .error (.valueError ("Invalid cursor: " ++ toString i))
      else .ok i := by
  have filled : toString i ≠ "" := by
    rw [Int.toString_eq_repr, Int.repr_eq_if]
    split
    · exact Nat.repr_ne_empty
    · simp
  rw [cursorStart.eq_def]
  split
  · contradiction
  · rename_i same
    exact absurd (Option.some.inj same) filled
  · rename_i same
    obtain rfl := Option.some.inj same
    rw [parseInt_toString reads]
    by_cases long : maxStrDigits < (Nat.toDigits 10 i.natAbs).length
    · simp only [if_pos long]
    · simp only [if_neg long]

theorem cursorStart_of_le (reads : unicode.ReadsDigits) {i : Int}
    (small : i.natAbs ≤ maxSize) : cursorStart unicode (some (toString i)) = .ok i := by
  rw [cursorStart_toString reads, if_neg]
  rw [Nat.not_lt]
  have within : i.natAbs < 10 ^ 19 := Nat.lt_of_le_of_lt small (by decide)
  have digits := (Nat.length_toDigits_le_iff (b := 10) (by decide) (by decide)).mpr within
  exact digits.trans (by decide)

theorem eq_of_cursorStart (reads : unicode.ReadsDigits) {i start : Int}
    (read : cursorStart unicode (some (toString i)) = .ok start) : start = i := by
  rw [cursorStart_toString reads] at read
  split at read
  · cases read
  · exact (Except.ok.inj read).symm

/-- The page that starts at a number. -/
def pageAt (memories : List Memory) (limit start : Int) : ListResult where
  memories := slice memories start (start + limit)
  nextCursor :=
    if start + limit < memories.length then some (toString (start + limit)) else none

theorem paginate_eq (memories : List Memory) (cursor : Option String) (limit : Int) :
    paginate unicode memories cursor limit =
      (cursorStart unicode cursor).map (pageAt memories limit) := by
  rw [paginate]
  cases cursorStart unicode cursor <;> rfl

end Cursors

/-- Following `next_cursor` from a cursor to the end, every page with the same
limit. -/
inductive Follows (unicode : Unicode) (memories : List Memory) (limit : Int) :
    Option String → List ListResult → Prop where
  | last {cursor : Option String} {page : ListResult}
      (reads : paginate unicode memories cursor limit = .ok page)
      (ends : page.nextCursor = none) : Follows unicode memories limit cursor [page]
  | next {cursor : Option String} {page : ListResult} {next : String}
      {pages : List ListResult}
      (reads : paginate unicode memories cursor limit = .ok page)
      (goes : page.nextCursor = some next)
      (rest : Follows unicode memories limit (some next) pages) :
      Follows unicode memories limit cursor (page :: pages)

/-- What a client that follows a cursor to its end is promised. -/
structure Sound (memories : List Memory) (start : Int) (pages : List ListResult) :
    Prop where
  once : (pages.flatMap ListResult.memories).Sublist memories
  ends : start < memories.length →
    (pages.flatMap ListResult.memories).getLast? = memories.getLast?
  filled : ∀ page ∈ pages, page.nextCursor ≠ none → page.memories ≠ []

/-- A cursor is refused, or following it ends and keeps the promise. -/
def CursorKept (unicode : Unicode) (memories : List Memory) (limit : Int)
    (cursor : Option String) : Prop :=
  (∃ message, paginate unicode memories cursor limit = .error (.valueError message)) ∨
    ∃ start pages, cursorStart unicode cursor = .ok start ∧
      Follows unicode memories limit cursor pages ∧ Sound memories start pages

section Chains

variable {unicode : Unicode} {memories : List Memory} {limit : Int}
  {cursor : Option String} {start : Int} {pages : List ListResult}

theorem slice_of_nonneg (items : List Memory) {start stop : Int} (low : 0 ≤ start)
    (le : start ≤ stop) :
    slice items start stop = (items.drop start.toNat).take (stop - start).toNat := by
  rw [slice, sliceBound, sliceBound, if_neg (by omega), if_neg (by omega)]
  by_cases within : start.toNat ≤ items.length
  · rw [Nat.min_eq_left within, List.take_eq_take_iff, List.length_drop]
    omega
  · rw [List.drop_of_length_le (by omega), List.drop_of_length_le (by omega),
      List.take_nil, List.take_nil]

theorem pageAt_next (goes : start + limit < memories.length) :
    (pageAt memories limit start).nextCursor = some (toString (start + limit)) :=
  if_pos goes

theorem pageAt_last (ends : ¬start + limit < memories.length) :
    (pageAt memories limit start).nextCursor = none :=
  if_neg ends

/-- Following a cursor reads the list from a place to its end, no page empty but
the last. -/
def ReadsFrom (unicode : Unicode) (memories : List Memory) (limit : Int)
    (cursor : Option String) (place : Nat) : Prop :=
  ∃ pages, Follows unicode memories limit cursor pages ∧
    pages.flatMap ListResult.memories = memories.drop place ∧
    ∀ page ∈ pages, page.nextCursor ≠ none → page.memories ≠ []

theorem paginate_of_read (read : cursorStart unicode cursor = .ok start) :
    paginate unicode memories cursor limit = .ok (pageAt memories limit start) := by
  rw [paginate_eq, read]
  rfl

theorem ReadsFrom.last {place : Nat} (read : cursorStart unicode cursor = .ok start)
    (ends : ¬start + limit < memories.length)
    (cut : slice memories start (start + limit) = memories.drop place) :
    ReadsFrom unicode memories limit cursor place := by
  refine ⟨[pageAt memories limit start],
    .last (paginate_of_read read) (pageAt_last ends), ?_, ?_⟩
  · rw [List.flatMap_singleton]
    exact cut
  · intro page member goesOn
    cases List.mem_singleton.mp member
    exact absurd (pageAt_last ends) goesOn

theorem ReadsFrom.next {place stop : Nat} (read : cursorStart unicode cursor = .ok start)
    (goes : start + limit < memories.length)
    (cut : slice memories start (start + limit) = (memories.drop place).take (stop - place))
    (fills : place < stop) (within : stop ≤ memories.length)
    (later : ReadsFrom unicode memories limit (some (toString (start + limit))) stop) :
    ReadsFrom unicode memories limit cursor place := by
  obtain ⟨pages, follows, rest, filled⟩ := later
  refine ⟨pageAt memories limit start :: pages,
    .next (paginate_of_read read) (pageAt_next goes) follows, ?_, ?_⟩
  · rw [List.flatMap_cons, rest]
    change slice memories start (start + limit) ++ _ = _
    have tail : memories.drop stop = (memories.drop place).drop (stop - place) := by
      rw [List.drop_drop, show place + (stop - place) = stop by omega]
    rw [cut, tail, List.take_append_drop]
  · refine List.forall_mem_cons.mpr ⟨fun _ => ?_, filled⟩
    change slice memories start (start + limit) ≠ []
    rw [cut]
    apply List.ne_nil_of_length_pos
    rw [List.length_take, List.length_drop]
    omega

theorem ReadsFrom.sound {place : Nat} (read : cursorStart unicode cursor = .ok start)
    (reads : ReadsFrom unicode memories limit cursor place)
    (inside : start < memories.length → place < memories.length ∨ memories = []) :
    CursorKept unicode memories limit cursor := by
  obtain ⟨pages, follows, rest, filled⟩ := reads
  refine .inr ⟨start, pages, read, follows, rest ▸ List.drop_sublist _ _, ?_, filled⟩
  intro starts
  rw [rest, List.getLast?_drop]
  split
  · rename_i past
    rcases inside starts with short | none
    · omega
    · simp [none]
  · rfl

theorem Follows.reads (follows : Follows unicode memories limit cursor pages) :
    ∃ start, cursorStart unicode cursor = .ok start := by
  cases follows with
  | last paged ends =>
      rw [paginate_eq] at paged
      obtain ⟨start, read, -⟩ := map_eq_ok.mp paged
      exact ⟨start, read⟩
  | next paged goes rest =>
      rw [paginate_eq] at paged
      obtain ⟨start, read, -⟩ := map_eq_ok.mp paged
      exact ⟨start, read⟩

end Chains

theorem readsDigits_ascii : Unicode.ascii.ReadsDigits := fun c digit => by
  simp [Unicode.ascii, digit]

end Memcp
