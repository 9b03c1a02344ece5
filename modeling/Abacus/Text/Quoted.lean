import Abacus.Text.Printable

/-!
# Quoted names

`quote` writes a name between double quotes. A quote and a backslash are preceded by a backslash,
the usual controls have a letter of their own, and any other character without a printed form is
given by its code point in braces.

* `escape_of_isPrintable`: a printable character other than a quote and a backslash is unchanged;
* `quote_of_forall`: a name made of such characters is put between quotes as it is.
-/

namespace Abacus.Text

/-- A code point as a hexadecimal escape, in lower case and without leading zeros. -/
def escapeCode (c : Char) : List Char :=
  ['\\', 'u', '\x7b'] ++ Nat.toDigits 16 c.toNat ++ ['\x7d']

/-- What a character looks like between quotes. -/
def escape (c : Char) : List Char :=
  if c = '"' ∨ c = '\\' then ['\\', c]
  else if c = '\n' then ['\\', 'n']
  else if c = '\t' then ['\\', 't']
  else if c = '\r' then ['\\', 'r']
  else if c = '\x00' then ['\\', '0']
  else if isPrintable c then [c]
  else escapeCode c

/-- A name between double quotes. -/
def quote (name : String) : String :=
  String.ofList ('"' :: name.toList.flatMap escape ++ ['"'])

theorem escape_of_isPrintable {c : Char} (h : isPrintable c = true) (hq : c ≠ '"') (hb : c ≠ '\\') :
    escape c = [c] := by
  have hn : c ≠ '\n' := by rintro rfl; exact absurd h (by decide +kernel)
  have ht : c ≠ '\t' := by rintro rfl; exact absurd h (by decide +kernel)
  have hr : c ≠ '\r' := by rintro rfl; exact absurd h (by decide +kernel)
  have hz : c ≠ '\x00' := by rintro rfl; exact absurd h (by decide +kernel)
  simp [escape, h, hq, hb, hn, ht, hr, hz]

theorem quote_of_forall {name : String}
    (h : ∀ c ∈ name.toList, isPrintable c = true ∧ c ≠ '"' ∧ c ≠ '\\') :
    quote name = "\"" ++ name ++ "\"" := by
  have : ∀ cs : List Char, (∀ c ∈ cs, isPrintable c = true ∧ c ≠ '"' ∧ c ≠ '\\') →
      cs.flatMap escape = cs := by
    intro cs
    induction cs with
    | nil => simp
    | cons c cs ih =>
      intro h
      obtain ⟨hp, hq, hb⟩ := h c (by simp)
      rw [List.flatMap_cons, escape_of_isPrintable hp hq hb, ih fun d hd => h d (by simp [hd])]
      rfl
  rw [quote, this _ h, ← String.toList_inj]
  simp

end Abacus.Text
