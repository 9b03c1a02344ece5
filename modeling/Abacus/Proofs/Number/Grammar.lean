import Abacus.Number.Numeral

/-!
# The language of numerals

A numeral is one or more digits, then a point and any number of digits or nothing, then an exponent or
nothing (`IsNumeral`). What is read at the start of a text that begins with a digit is a numeral
(`isNumeral_lexeme`), and the longest one there is (`IsNumeral.prefix_lexeme`, `isLongestNumeral_lexeme`).
-/

namespace Abacus.Number

/-- Digits only. -/
def IsDigits (cs : List Char) : Prop :=
  ∀ c ∈ cs, c.isDigit = true

/-- A point and any number of digits, or nothing. -/
inductive IsFraction : List Char → Prop where
  | none : IsFraction []
  | point {ds : List Char} (hd : IsDigits ds) : IsFraction ('.' :: ds)

/-- A mark, a sign or none, and one or more digits, or nothing at all. -/
inductive IsExponent : List Char → Prop where
  | none : IsExponent []
  | mark {c : Char} {s ds : List Char} (hc : c = 'e' ∨ c = 'E') (hs : s = [] ∨ s = ['+'] ∨ s = ['-'])
    (hd : IsDigits ds) (hne : ds ≠ []) : IsExponent (c :: (s ++ ds))

/-- One or more digits, a fraction and an exponent. -/
inductive IsNumeral : List Char → Prop where
  | mk {whole point exponent : List Char} (hw : IsDigits whole) (hne : whole ≠ [])
    (hp : IsFraction point) (he : IsExponent exponent) : IsNumeral (whole ++ (point ++ exponent))

variable {cs rest : List Char}

theorem IsNumeral.exists_cons (h : IsNumeral cs) : ∃ c ds, cs = c :: ds ∧ c.isDigit = true := by
  obtain ⟨hw, hne, _, _⟩ := h
  obtain ⟨c, ds, rfl⟩ := List.exists_cons_of_ne_nil hne
  exact ⟨c, _, rfl, hw c List.mem_cons_self⟩

/-! ## What is read is a numeral -/

theorem isDigits_digits (cs : List Char) : IsDigits (digits cs) := fun _ h => isDigit_of_mem_digits h

theorem isFraction_fraction (cs : List Char) : IsFraction (fraction cs) := by
  unfold fraction
  split
  · exact .point (isDigits_digits _)
  · exact .none

theorem sign_eq (cs : List Char) : sign cs = [] ∨ sign cs = ['+'] ∨ sign cs = ['-'] := by
  unfold sign
  split <;> simp

theorem isExponent_exponent (cs : List Char) : IsExponent (exponent cs) := by
  cases cs with
  | nil => exact .none
  | cons c cs =>
    simp only [exponent]
    split
    · rename_i h
      have hc : c = 'e' ∨ c = 'E' := of_decide_eq_true h.1
      exact .mark hc (sign_eq cs) (isDigits_digits _) h.2
    · exact .none

/-- What is read at the start of a text that begins with a digit is a numeral. -/
theorem isNumeral_lexeme {c : Char} (hc : c.isDigit = true) : IsNumeral (lexeme (c :: cs)) := by
  have hne : digits (c :: cs) ≠ [] := by simp [digits, hc]
  simp only [lexeme, List.append_assoc]
  exact .mk (isDigits_digits _) hne (isFraction_fraction _) (isExponent_exponent _)

/-! ## No longer numeral begins the text -/

theorem digits_append (hd : IsDigits cs) (rest : List Char) :
    digits (cs ++ rest) = cs ++ digits rest :=
  List.takeWhile_append_of_pos hd

/-- A fraction ends where neither a digit nor a point follows. -/
theorem fraction_append {point : List Char} (hp : IsFraction point) (hf : fraction rest = [])
    (hd : digits rest = []) : fraction (point ++ rest) = point := by
  cases hp with
  | none => exact hf
  | @point ds hds =>
    show '.' :: digits (ds ++ rest) = '.' :: ds
    rw [digits_append hds, hd, List.append_nil]

theorem digits_fraction_append {point : List Char} (hp : IsFraction point) (hd : digits rest = []) :
    digits (point ++ rest) = [] := by
  cases hp with
  | none => exact hd
  | point => rfl

theorem digits_mark {c : Char} (hc : c = 'e' ∨ c = 'E') (cs : List Char) :
    digits (c :: cs) = [] := by
  rcases hc with rfl | rfl <;> rfl

theorem fraction_mark {c : Char} (hc : c = 'e' ∨ c = 'E') (cs : List Char) :
    fraction (c :: cs) = [] := by
  rcases hc with rfl | rfl <;> rfl

/-- A sign, or none, ends where a digit follows. -/
theorem sign_append {s ds : List Char} (hs : s = [] ∨ s = ['+'] ∨ s = ['-']) (hd : IsDigits ds)
    (hne : ds ≠ []) (rest : List Char) : sign (s ++ (ds ++ rest)) = s := by
  rcases hs with rfl | rfl | rfl
  · obtain ⟨d, ds, rfl⟩ := List.exists_cons_of_ne_nil hne
    have hdigit : d.isDigit = true := hd d List.mem_cons_self
    show sign (d :: (ds ++ rest)) = []
    unfold sign
    split
    · rename_i h
      rw [(List.cons.inj h).1] at hdigit
      exact absurd hdigit (by decide)
    · rename_i h
      rw [(List.cons.inj h).1] at hdigit
      exact absurd hdigit (by decide)
    · rfl
  · rfl
  · rfl

/-- After a mark, a sign and at least one digit, an exponent takes all digits that follow. -/
theorem exponent_append {c : Char} {s ds : List Char} (hc : c = 'e' ∨ c = 'E')
    (hs : s = [] ∨ s = ['+'] ∨ s = ['-']) (hd : IsDigits ds) (hne : ds ≠ []) (rest : List Char) :
    exponent (c :: (s ++ ds) ++ rest) = c :: (s ++ ds) ++ digits rest := by
  have hsign := sign_append hs hd hne rest
  have hmark : isExponentMark c = true := decide_eq_true hc
  have hnonempty : ds ++ digits rest ≠ [] := by simp [hne]
  simp only [List.cons_append, List.append_assoc, exponent, hsign, List.drop_left,
    digits_append hd, hmark, hnonempty, ne_eq, not_false_eq_true, and_self, if_true]

/-- What is read when it is known where the digits end and where the fraction ends. -/
theorem lexeme_append {whole point : List Char} (hw : digits (whole ++ (point ++ rest)) = whole)
    (hp : fraction (point ++ rest) = point) :
    lexeme (whole ++ (point ++ rest)) = whole ++ (point ++ exponent rest) := by
  simp only [lexeme, hw, List.drop_left, hp, List.append_assoc]

/-- No numeral that begins the text is longer than what is read. -/
theorem IsNumeral.prefix_lexeme {t : List Char} (ht : IsNumeral t) (rest : List Char) :
    t <+: lexeme (t ++ rest) := by
  obtain @⟨whole, point, ex, hw, hne, hp, he⟩ := ht
  rw [List.append_assoc, List.append_assoc]
  cases he with
  | none =>
    rw [List.nil_append, List.append_nil]
    cases hp with
    | none =>
      simp only [List.nil_append, List.append_nil, lexeme, digits_append hw, List.append_assoc]
      exact List.prefix_append _ _
    | @point ds hd =>
      have hpoint : digits ('.' :: (ds ++ rest)) = [] := rfl
      simp only [List.cons_append, lexeme, digits_append hw, hpoint, List.append_nil,
        List.drop_left, fraction, digits_append hd, List.append_assoc]
      exact (List.prefix_append_right_inj _).2 ((List.prefix_cons_inj _).2 (List.prefix_append _ _))
  | @mark c s ds hc hs hd hne =>
    have hmark : digits (c :: (s ++ ds) ++ rest) = [] := digits_mark hc _
    have hfraction := fraction_append hp (fraction_mark hc _) hmark
    have hwhole : digits (whole ++ (point ++ (c :: (s ++ ds) ++ rest))) = whole := by
      rw [digits_append hw, digits_fraction_append hp hmark, List.append_nil]
    rw [lexeme_append hwhole hfraction, exponent_append hc hs hd hne]
    refine (List.prefix_append_right_inj _).2 ((List.prefix_append_right_inj _).2 ?_)
    exact List.prefix_append _ _

/-- Whether a text is the longest numeral that another one begins with. -/
structure IsLongestNumeral (t cs : List Char) : Prop where
  isNumeral : IsNumeral t
  isPrefix : t <+: cs
  length_le : ∀ u, IsNumeral u → u <+: cs → u.length ≤ t.length

/-- What is read is the longest numeral. -/
theorem isLongestNumeral_lexeme {c : Char} (hc : c.isDigit = true) (cs : List Char) :
    IsLongestNumeral (lexeme (c :: cs)) (c :: cs) := by
  refine ⟨isNumeral_lexeme hc, ⟨_, lexeme_append_drop _⟩, fun u hu hp => ?_⟩
  obtain ⟨more, hmore⟩ := hp
  exact hmore ▸ (hu.prefix_lexeme more).length_le

theorem IsNumeral.isLongestNumeral (h : IsNumeral cs) : IsLongestNumeral cs cs :=
  ⟨h, List.prefix_rfl, fun _ _ hp => hp.length_le⟩

/-- There is one longest numeral. -/
theorem IsLongestNumeral.eq {t u : List Char} (ht : IsLongestNumeral t cs)
    (hu : IsLongestNumeral u cs) : t = u := by
  have hto := ht.length_le u hu.isNumeral hu.isPrefix
  have hback := hu.length_le t ht.isNumeral ht.isPrefix
  exact (List.prefix_of_prefix_length_le ht.isPrefix hu.isPrefix hback).eq_of_length_le hto

/-- The numeral at the start of a text is the same in any shorter text that has all of it: each of the
two numerals begins the other. -/
theorem lexeme_eq_of_isPrefix {c : Char} {us vs : List Char} (hc : c.isDigit = true)
    (hp : c :: us <+: c :: vs) (hl : lexeme (c :: vs) <+: c :: us) :
    lexeme (c :: us) = lexeme (c :: vs) := by
  have hshort : IsNumeral (lexeme (c :: us)) := isNumeral_lexeme hc
  have hlong : IsNumeral (lexeme (c :: vs)) := isNumeral_lexeme hc
  have hto : lexeme (c :: vs) <+: lexeme (c :: us) := by
    obtain ⟨more, hmore⟩ := hl
    exact hmore ▸ hlong.prefix_lexeme more
  have hback : lexeme (c :: us) <+: lexeme (c :: vs) := by
    have hbegins : lexeme (c :: us) <+: c :: us := ⟨_, lexeme_append_drop _⟩
    obtain ⟨more, hmore⟩ := hbegins.trans hp
    exact hmore ▸ hshort.prefix_lexeme more
  exact hback.eq_of_length_le hto.length_le

end Abacus.Number
