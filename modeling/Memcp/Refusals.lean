import Memcp.Policy.Batches

/-!
A request that is refused leaves a local backend as it was, and so does each
entry an import refuses.
-/

namespace Memcp

open Python Interaction Import

variable {unicode : Unicode} {fresh : FreshIds} {asked : Nat} {items : List Item}
  {key : Key}

theorem Comes.of_error {request : Request} {error : Exc} {count : Nat}
    {later : List Item}
    (comes : Comes unicode key fresh asked items request (.error error) count later) :
    later = items := by
  obtain ⟨did, -⟩ := comes
  generalize outcome_eq : (Except.error error : Except Exc Response) = outcome at did
  cases did with
  | kept => rfl
  | added | updated | deleted | cleared | imported => cases outcome_eq

/-- An entry an import refuses adds nothing to what the entries before it made
of the space. -/
theorem Space.refused_entry {entries : List (Dict String Json)} {onConflict : String}
    {outcome : ImportOutcome}
    (stands : Space.Stands fresh asked items)
    (returned : ((Space.store unicode).request unicode fresh.supply key
      (.importMemories entries onConflict) asked items).1 = .ok (.imported outcome))
    {refusal : ImportError} (listed : refusal ∈ outcome.errors) :
    let after := Space.imported unicode fresh key onConflict asked items
    refusal.index < entries.length ∧
      after (entries.take (refusal.index + 1)) = after (entries.take refusal.index) := by
  intro after
  have short := (Space.listed_short stands returned).1 refusal listed
  refine ⟨short, ?_⟩
  obtain ⟨mode, before, report, later, reports, -, left, reached, -, -, step, reported,
    rfl⟩ := Space.import_at stands returned short
  rw [ImportOutcome.reports_eq] at listed
  obtain ⟨place, found, there, same⟩ := mem_listed.mp listed
  cases found with
  | failed message =>
      cases same
      rw [Nat.zero_add] at reported
      cases there.symm.trans reported
      cases step
      exact reached.trans left.symm
  | _ => cases same

theorem refused_requests_change_nothing {backend : LocalBackend}
    {state : (backend.store unicode).State}
    (stands : (backend.representation unicode).Stands fresh asked state)
    (key : Key) (request : Request) :
    let ran := (backend.store unicode).request unicode fresh.supply key request asked
      state
    (∀ error, ran.1 = .error error →
      backend.after unicode fresh key request asked state =
        (backend.representation unicode).spaces state) ∧
    ∀ entries onConflict outcome, request = .importMemories entries onConflict →
      ran.1 = .ok (.imported outcome) → ∀ refusal ∈ outcome.errors,
        refusal.index < entries.length ∧
        backend.after unicode fresh key
            (.importMemories (entries.take (refusal.index + 1)) onConflict) asked
            state =
          backend.after unicode fresh key
            (.importMemories (entries.take refusal.index) onConflict) asked state := by
  intro ran
  have own := LocalBackend.stands stands key.grant.space
  have same : ran.1 = _ := (Representation.request_eq stands key request).1
  refine ⟨fun error raised => ?_, ?_⟩
  · have comes := @Space.request_comes unicode key fresh asked _ own request
    rw [same] at raised
    simp only [raised] at comes
    rw [LocalBackend.after_eq stands, comes.of_error, Function.update_eq_self]
  · rintro entries onConflict outcome rfl returned refusal listed
    rw [same] at returned
    obtain ⟨short, unchanged⟩ := Space.refused_entry own returned listed
    refine ⟨short, ?_⟩
    rw [LocalBackend.after_eq stands, LocalBackend.after_eq stands]
    exact congrArg (Function.update _ _) unchanged

/-- A reader's add. -/
theorem refused_requests_change_nothing_add :
    let backend := LocalBackend.inMemory
    let request : Request := .add "x" .null none false
    let ran := (backend.store .ascii).request .ascii FreshIds.tally.supply
      ⟨"ann", ⟨"s", .reader⟩⟩ request 0 (backend.store .ascii).initial
    (∀ error, ran.1 = .error error →
      backend.after .ascii FreshIds.tally ⟨"ann", ⟨"s", .reader⟩⟩ request 0
          (backend.store .ascii).initial =
        (backend.representation .ascii).spaces (backend.store .ascii).initial) ∧
    ran.1 = .error (.policyError .forbidden forbiddenMsg) :=
  ⟨(refused_requests_change_nothing
    ((LocalBackend.inMemory.representation .ascii).stands_initial FreshIds.tally)
    ⟨"ann", ⟨"s", .reader⟩⟩ (.add "x" .null none false)).1, rfl⟩

end Memcp
