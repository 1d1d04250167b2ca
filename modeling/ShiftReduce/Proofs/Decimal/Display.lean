import ShiftReduce.Proofs.Decimal.Double
import ShiftReduce.Proofs.Decimal.Legible

/-!
# Display — the text of a double is read as that double

The text of a double is its magnitude, laid out in some way, behind its sign, or it is one of three
words.  If the magnitude can be read from the layout, the double can be read from the text.

* `Decimal.mem_positional`: the characters of the layout without an exponent.
* `Binary64.read_text`: any layout from which magnitudes are read.
* `read_positionalText`, `exponent_not_mem_positionalText`: the text that is shown for a value.
-/

namespace ShiftReduce

open Numeral

/-! ## Characters -/

namespace Decimal

variable {d : Decimal} {c : Char}

theorem isDigit_of_mem_trimmed (h : c ∈ d.trimmed.1) : c.isDigit = true :=
  Nat.isDigit_of_mem_toDigits (by decide) (by decide) (List.mem_of_mem_take h)

theorem mem_positional (h : c ∈ d.positional) : c.isDigit = true ∨ c = '.' := by
  have hdigits : ∀ c ∈ d.trimmed.1, c.isDigit = true := fun _ hc => isDigit_of_mem_trimmed hc
  unfold positional at h
  generalize d.trimmed = parts at *
  obtain ⟨ds, exponent⟩ := parts
  dsimp only at h hdigits
  split at h
  · rcases List.mem_append.1 h with h | h
    · exact .inl (hdigits c h)
    · exact .inl (isDigit_of_mem_replicate h)
  · split at h
    · rcases List.mem_append.1 h with h | h
      · exact .inl (hdigits c (List.mem_of_mem_take h))
      · rcases List.mem_cons.1 h with rfl | h
        · exact .inr rfl
        · exact .inl (hdigits c (List.mem_of_mem_drop h))
    · rcases List.mem_cons.1 h with rfl | h
      · exact .inl rfl
      · rcases List.mem_cons.1 h with rfl | h
        · exact .inr rfl
        · rcases List.mem_append.1 h with h | h
          · exact .inl (isDigit_of_mem_replicate h)
          · exact .inl (hdigits c h)

end Decimal

theorem Magnitude.mem_positional {m : Magnitude} {c : Char} (h : c ∈ m.positional) :
    c.isDigit = true ∨ c = '.' := by
  unfold positional at h
  split at h
  · obtain rfl := List.mem_singleton.1 h
    exact .inl rfl
  · exact Decimal.mem_positional h

/-! ## Texts -/

namespace Binary64

theorem ofFloat_cases (v : Float) :
    ofFloat v = .nan ∨ ∃ negative b, ofFloat v = ofMagnitudeBits negative b := by
  unfold ofFloat
  dsimp only
  split
  · exact .inl rfl
  · exact .inr ⟨_, _, rfl⟩

/-- A double is read from its text if its magnitude is read from its layout. -/
theorem read_text {layout : Magnitude → List Char}
    (hlayout : ∀ b < infinityBits, Spells (layout (.ofBits b)) b) (v : Float) :
    read ((ofFloat v).text layout) = .ok v := by
  have hback := toFloat_ofFloat v
  rcases ofFloat_cases v with hnan | ⟨negative, b, hparts⟩
  · rw [hnan] at hback ⊢
    rw [← hback]
    rfl
  · rw [hparts] at hback ⊢
    rw [← hback]
    by_cases hb : b < infinityBits
    · have hspells := hlayout b hb
      have hfinite : ofMagnitudeBits negative b = .finite negative (.ofBits b) := if_pos hb
      cases negative with
      | false =>
          have htext : (ofMagnitudeBits false b).text layout = layout (.ofBits b) := by
            rw [hfinite]
            rfl
          rw [htext, read_of_spells hspells]
      | true =>
          have htext : (ofMagnitudeBits true b).text layout = '-' :: layout (.ofBits b) := by
            rw [hfinite]
            rfl
          rw [htext, read_neg_of_spells hspells]
    · have hinfinite : ofMagnitudeBits negative b = .infinite negative := if_neg hb
      rw [hinfinite]
      cases negative <;> rfl

end Binary64

theorem read_positionalText (v : Float) : read (positionalText v).toList = .ok v := by
  rw [positionalText, String.toList_ofList]
  exact Binary64.read_text (fun _ hb => Magnitude.spells_positional hb) v

theorem exponent_not_mem_positionalText (v : Float) : 'e' ∉ (positionalText v).toList := by
  rw [positionalText, String.toList_ofList]
  cases Binary64.ofFloat v with
  | nan => decide
  | infinite negative => cases negative <;> decide
  | finite negative m =>
      intro h
      rcases List.mem_append.1 h with h | h
      · cases negative <;> simp at h
      · rcases Magnitude.mem_positional h with h | h
        · cases h
        · cases h

end ShiftReduce
