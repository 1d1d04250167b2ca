import ShiftReduce.Diagnostic

/-!
# Lines — texts that are put on a line of their own

What is said in one line must have no newline in it.  Positions and headings have none, and so a
diagnostic has none unless its message has.

* `cons_infix_of_mem_splitOn`, `exists_line_of_cons_infix`: lines begin a text or follow a line end.
* `OneLine`: texts without a newline.
* `oneLine_diagnostic`: when a diagnostic is such a text.
-/

namespace ShiftReduce

/-! ## Parts of a text -/

theorem eq_nil_of_prefix_cons {w xs : List Char} {c : Char} (h : w <+: c :: xs) (hc : c ∉ w) :
    w = [] := by
  cases w with
  | nil => rfl
  | cons d w =>
      rw [(List.cons_prefix_cons.1 h).1] at hc
      exact absurd List.mem_cons_self hc

/-- A prefix without some character ends before it. -/
theorem prefix_of_prefix_append_cons {w xs ys : List Char} {c : Char} (h : w <+: xs ++ c :: ys)
    (hc : c ∉ w) : w <+: xs := by
  rcases List.prefix_or_prefix_of_prefix h (List.prefix_append xs _) with hfront | ⟨rest, rfl⟩
  · exact hfront
  · have hrest := eq_nil_of_prefix_cons ((List.prefix_append_right_inj xs).1 h)
      fun hmem => hc (List.mem_append_right _ hmem)
    exact ⟨[], by simp [hrest]⟩

/-- A part without some character lies before it or behind it. -/
theorem infix_append_cons {w xs ys : List Char} {c : Char} (h : w <:+: xs ++ c :: ys)
    (hc : c ∉ w) : w <:+: xs ∨ w <:+: ys := by
  rcases List.infix_append_iff.1 h with hwithin | hwithin | ⟨left, right, rfl, hleft, hright⟩
  · exact .inl hwithin
  · rcases List.infix_cons_iff.1 hwithin with hfront | hwithin
    · rw [eq_nil_of_prefix_cons hfront hc]
      exact .inl List.nil_infix
    · exact .inr hwithin
  · -- What reaches over to the other side would begin there with the character.
    rw [eq_nil_of_prefix_cons hright fun hmem => hc (List.mem_append_right _ hmem), List.append_nil]
    exact .inl hleft.isInfix

/-- A part that begins with some character lies behind what has none. -/
theorem infix_of_cons_infix_append {w xs ys : List Char} {c : Char} (h : c :: w <:+: xs ++ ys)
    (hc : c ∉ xs) : c :: w <:+: ys := by
  rcases List.infix_append_iff.1 h with hwithin | hwithin | ⟨left, right, hw, hleft, hright⟩
  · exact absurd (hwithin.subset List.mem_cons_self) hc
  · exact hwithin
  · cases left with
    | nil =>
        rw [List.nil_append] at hw
        rw [hw]
        exact hright.isInfix
    | cons d left =>
        cases hw
        exact absurd (hleft.subset List.mem_cons_self) hc

/-! ## Lines of a text -/

theorem cons_infix_of_mem_lines {line : List Char} {lines : List (List Char)} (h : line ∈ lines) :
    '\n' :: line <:+: '\n' :: ['\n'].intercalate lines := by
  induction lines with
  | nil => cases h
  | cons first rest ih =>
      cases rest with
      | nil => exact ⟨[], [], by simp [List.mem_singleton.1 h]⟩
      | cons second rest =>
          rw [List.intercalate_cons_cons, List.append_assoc]
          rcases List.mem_cons.1 h with rfl | hmem
          · exact (List.prefix_append ('\n' :: line) _).isInfix
          · exact (ih hmem).trans (List.suffix_append ('\n' :: first) _).isInfix

/-- A line of a text begins it or follows a line end. -/
theorem cons_infix_of_mem_splitOn {line text : List Char} (h : line ∈ text.splitOn '\n') :
    '\n' :: line <:+: '\n' :: text := by
  have hwithin := cons_infix_of_mem_lines h
  rwa [List.intercalate_splitOn] at hwithin

/-- What begins a text and fits on a line begins a line of the text. -/
theorem exists_line_of_prefix {w text : List Char} (hw : '\n' ∉ w) (h : w <+: text) :
    ∃ line ∈ text.splitOn '\n', w <+: line := by
  have htext : ['\n'].intercalate (text.splitOn '\n') = text := List.intercalate_splitOn '\n'
  rw [← htext] at h
  cases hlines : text.splitOn '\n' with
  | nil => exact absurd hlines (List.splitOn_ne_nil _ _)
  | cons first rest =>
      refine ⟨first, List.mem_cons_self, ?_⟩
      rw [hlines] at h
      cases rest with
      | nil => rwa [List.intercalate_singleton] at h
      | cons second rest =>
          rw [List.intercalate_cons_cons, List.append_assoc] at h
          exact prefix_of_prefix_append_cons h hw

/-- What begins a text or follows a line end, and fits on a line, begins a line of the text. -/
theorem exists_line_of_cons_infix {w text : List Char} (hw : '\n' ∉ w)
    (h : '\n' :: w <:+: '\n' :: text) : ∃ line ∈ text.splitOn '\n', w <+: line := by
  rcases List.infix_cons_iff.1 h with hfront | ⟨before, behind, rfl⟩
  · exact exists_line_of_prefix hw (List.cons_prefix_cons.1 hfront).2
  · -- The lines behind a line end are lines of the whole.
    obtain ⟨line, hline, hfront⟩ := exists_line_of_prefix hw (List.prefix_append w behind)
    refine ⟨line, ?_, hfront⟩
    rw [List.append_assoc, List.cons_append, List.splitOn_append_cons_self]
    exact List.mem_append_right _ hline

/-! ## Texts on one line -/

def OneLine (text : String) : Prop :=
  '\n' ∉ text.toList

instance (text : String) : Decidable (OneLine text) :=
  inferInstanceAs (Decidable ('\n' ∉ text.toList))

@[simp] theorem oneLine_append {s t : String} : OneLine (s ++ t) ↔ OneLine s ∧ OneLine t := by
  rw [OneLine, String.toList_append, List.mem_append, not_or]
  rfl

@[simp] theorem oneLine_ofList {cs : List Char} : OneLine (.ofList cs) ↔ '\n' ∉ cs := by
  rw [OneLine, String.toList_ofList]

@[simp] theorem oneLine_repr (n : Nat) : OneLine n.repr := by
  rw [OneLine, Nat.toList_repr]
  intro hmem
  have hdigit := Nat.isDigit_of_mem_toDigits (by decide) (by decide) hmem
  exact absurd hdigit (by decide)

theorem oneLine_span (s : Span) : OneLine (toString s) := by
  have htext : toString s = s.start.line.repr ++ ":" ++ s.start.column.repr ++ ".." ++
      s.stop.line.repr ++ ":" ++ s.stop.column.repr := rfl
  simp +decide [htext]

theorem oneLine_heading (k : DiagnosticKind) : OneLine k.heading := by
  cases k <;> decide

/-- A diagnostic fits on a line if its message does. -/
theorem oneLine_diagnostic {d : Diagnostic} (h : OneLine d.message) : OneLine (toString d) := by
  obtain ⟨kind, message, span⟩ := d
  cases span with
  | none =>
      have htext : toString (⟨kind, message, none⟩ : Diagnostic) =
          kind.heading ++ ": " ++ message ++ "" := rfl
      rw [htext]
      simp +decide [oneLine_heading, h]
  | some s =>
      have htext : toString (⟨kind, message, some s⟩ : Diagnostic) =
          kind.heading ++ ": " ++ message ++ (" at " ++ toString s) := rfl
      rw [htext]
      simp +decide [oneLine_heading, h, oneLine_span]

end ShiftReduce
