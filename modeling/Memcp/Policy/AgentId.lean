import Memcp.Policy.Scope

/-!
The form `validate_scope` gives the text of an `agent_id`, and that a text in
this form is left as it is.
-/

namespace Memcp

open Python

/-- Lowercase letters and digits in runs joined by single hyphens. -/
inductive AgentIdForm : List Char → Prop
  | single {c : Char} (keeps : isAgentIdChar c = true) : AgentIdForm [c]
  | letter {c : Char} {rest : List Char} (keeps : isAgentIdChar c = true)
      (tail : AgentIdForm rest) : AgentIdForm (c :: rest)
  | hyphen {c : Char} {rest : List Char} (keeps : isAgentIdChar c = true)
      (tail : AgentIdForm rest) : AgentIdForm (c :: '-' :: rest)

theorem hyphen_of_isAgentIdChar {c : Char} (keeps : isAgentIdChar c = true) :
    c ≠ '-' := by
  rintro rfl
  exact absurd keeps (by decide)

namespace AgentIdForm

variable {text : List Char}

theorem ne_nil (form : AgentIdForm text) : text ≠ [] := by
  cases form <;> exact List.cons_ne_nil _ _

theorem chars (form : AgentIdForm text) :
    ∀ c ∈ text, isAgentIdChar c = true ∨ c = '-' := by
  induction form with
  | single keeps => simpa using .inl keeps
  | letter keeps tail induction =>
      simpa using ⟨.inl keeps, induction⟩
  | hyphen keeps tail induction =>
      simpa using ⟨.inl keeps, induction⟩

theorem head (form : AgentIdForm text) : text.head? ≠ some '-' := by
  cases form with
  | single keeps | letter keeps | hyphen keeps =>
      simpa using hyphen_of_isAgentIdChar keeps

theorem last (form : AgentIdForm text) : text.getLast? ≠ some '-' := by
  induction form with
  | single keeps => simpa using hyphen_of_isAgentIdChar keeps
  | letter keeps tail induction =>
      rwa [List.getLast?_cons_of_ne_nil tail.ne_nil]
  | hyphen keeps tail induction =>
      rwa [List.getLast?_cons_of_ne_nil (List.cons_ne_nil _ _),
        List.getLast?_cons_of_ne_nil tail.ne_nil]

theorem collapse_eq (form : AgentIdForm text) (inRun : Bool) :
    collapse inRun text = text := by
  induction form generalizing inRun with
  | single keeps => simp [collapse, keeps]
  | letter keeps tail induction => simp [collapse, keeps, induction]
  | hyphen keeps tail induction =>
      have hyphen : isAgentIdChar '-' = false := by decide
      simp [collapse, keeps, hyphen, induction]

end AgentIdForm

/-! What collapsing gives. -/

/-- A text in form or nothing, with at most a hyphen on either side; none in
front when a run was just replaced. -/
theorem collapse_shape (inRun : Bool) (text : List Char) :
    ∃ lead core trail, collapse inRun text = lead ++ (core ++ trail) ∧
      (lead = [] ∨ inRun = false ∧ lead = ['-']) ∧
      (core = [] ∧ trail = [] ∨
        AgentIdForm core ∧ (trail = [] ∨ trail = ['-'])) := by
  induction text generalizing inRun with
  | nil => exact ⟨[], [], [], rfl, .inl rfl, .inl ⟨rfl, rfl⟩⟩
  | cons c rest induction =>
      cases keeps : isAgentIdChar c with
      | true =>
          obtain ⟨lead, core, trail, shape, leads, ends⟩ := induction false
          simp only [collapse, keeps, if_true, shape]
          rcases leads with rfl | ⟨-, rfl⟩
          · rcases ends with ⟨rfl, rfl⟩ | ⟨form, trails⟩
            · exact ⟨[], [c], [], rfl, .inl rfl, .inr ⟨.single keeps, .inl rfl⟩⟩
            · exact ⟨[], c :: core, trail, rfl, .inl rfl,
                .inr ⟨.letter keeps form, trails⟩⟩
          · rcases ends with ⟨rfl, rfl⟩ | ⟨form, trails⟩
            · exact ⟨[], [c], ['-'], rfl, .inl rfl,
                .inr ⟨.single keeps, .inr rfl⟩⟩
            · exact ⟨[], c :: '-' :: core, trail, rfl, .inl rfl,
                .inr ⟨.hyphen keeps form, trails⟩⟩
      | false =>
          obtain ⟨lead, core, trail, shape, leads, ends⟩ := induction true
          obtain rfl : lead = [] := leads.resolve_right nofun
          cases inRun with
          | true =>
              refine ⟨[], core, trail, ?_, .inl rfl, ends⟩
              simpa [collapse, keeps] using shape
          | false =>
              refine ⟨['-'], core, trail, ?_, .inr ⟨rfl, rfl⟩, ends⟩
              simpa [collapse, keeps] using shape

theorem AgentIdForm.stripOf_eq {lead core trail : List Char}
    (form : AgentIdForm core) (leads : ∀ c ∈ lead, c = '-')
    (trails : ∀ c ∈ trail, c = '-') :
    stripOf (· = '-') (lead ++ (core ++ trail)) = core := by
  apply stripOf_append
  · simpa using leads
  · simpa using trails
  · intro c same
    exact decide_eq_false fun hyphen => form.head (hyphen ▸ same)
  · intro c same
    exact decide_eq_false fun hyphen => form.last (hyphen ▸ same)

/-- `_normalize_agent_id` gives nothing, or a text in form. -/
theorem normalizeAgentId_form (unicode : Unicode) (value : String) :
    normalizeAgentId unicode value = "" ∨
      AgentIdForm (normalizeAgentId unicode value).toList := by
  rw [normalizeAgentId, String.toList_ofList]
  obtain ⟨lead, core, trail, shape, leads, ends⟩ :=
    collapse_shape false (unicode.lower (stripOf isSpace value.toList))
  have leading : ∀ c ∈ lead, c = '-' := by
    rcases leads with rfl | ⟨-, rfl⟩ <;> simp
  rw [shape]
  rcases ends with ⟨rfl, rfl⟩ | ⟨form, trails⟩
  · left
    have stripped : stripOf (· = '-') (lead ++ ([] ++ [])) = [] :=
      stripOf_append (by simpa using leading) nofun nofun nofun
    rw [stripped]
  · right
    have trailing : ∀ c ∈ trail, c = '-' := by
      rcases trails with rfl | rfl <;> simp
    rwa [form.stripOf_eq leading trailing]

/-! A text in form is left as it is. -/

/-- Text of these characters is ASCII, lowercase and without whitespace. -/
theorem isAgentIdChar_plain {c : Char}
    (keeps : isAgentIdChar c = true ∨ c = '-') :
    isSpace c = false ∧ c.toNat < 128 ∧ c.toLower = c := by
  have range : (97 ≤ c.toNat ∧ c.toNat ≤ 122) ∨ (48 ≤ c.toNat ∧ c.toNat ≤ 57) ∨
      c.toNat = 45 := by
    rcases keeps with keeps | rfl
    · simp only [isAgentIdChar, Bool.or_eq_true, Bool.and_eq_true, decide_eq_true_eq,
        Char.le_def, UInt32.le_iff_toNat_le] at keeps
      exact keeps.imp_right .inl
    · exact .inr (.inr rfl)
  refine ⟨?_, by omega, ?_⟩
  · simp [isSpace]
    omega
  · delta Char.toLower
    rw [dif_neg]
    simp only [UInt32.le_iff_toNat_le, ge_iff_le]
    change ¬ (65 ≤ c.toNat ∧ c.toNat ≤ 90)
    omega

theorem AgentIdForm.normalize_eq {text : String} (form : AgentIdForm text.toList)
    (unicode : Unicode) : normalizeAgentId unicode text = text := by
  have plain : ∀ c ∈ text.toList,
      isSpace c = false ∧ c.toNat < 128 ∧ c.toLower = c :=
    fun c member => isAgentIdChar_plain (form.chars c member)
  have lower : unicode.lower text.toList = text.toList := by
    rw [unicode.lower_ascii _ fun c member => (plain c member).2.1]
    exact (List.map_congr_left fun c member => (plain c member).2.2).trans
      (List.map_id _)
  have stripped : stripOf (· = '-') text.toList = text.toList := by
    simpa using @stripOf_eq [] text.toList [] form nofun nofun
  rw [normalizeAgentId, stripOf_of_forall fun c member => (plain c member).1, lower,
    form.collapse_eq, stripped, String.ofList_toList]

theorem normalizeAgentId_eq_iff (unicode : Unicode) {value : String}
    (some : value ≠ "") :
    normalizeAgentId unicode value = value ↔ AgentIdForm value.toList := by
  constructor
  · intro fixed
    have form := normalizeAgentId_form unicode value
    rw [fixed] at form
    exact form.resolve_left some
  · exact fun form => form.normalize_eq unicode

end Memcp
