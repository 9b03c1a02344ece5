import Abacus.Token.Basic

/-!
# The token cache

The tokens of the texts that were used last, so that a text need not be read again. The cache keeps
a bounded number of entries, the last used first, and drops the one that was not used for longest.

* `find?_use_self`: a text that has just been used is found, unless the cache keeps nothing;
* `length_use_le`: the cache never keeps more than its capacity;
* `texts_use`: the order of the entries is the order of use.
-/

namespace Abacus

/-- The tokens of one reading of a text. Two readings of the same text differ in their number. -/
structure TokenStream where
  /-- The number of the reading. -/
  serial : Nat
  /-- The tokens. -/
  tokens : List Token
deriving DecidableEq

/-- The tokens of the texts used last. The cache is a component that a calculator is given, and what is
stated here is assumed of it: an entry that is found moves to the front, a new entry is put in front,
and where there is no room for all of them, the last one is dropped. -/
structure TokenCache where
  /-- The number of entries that are kept. -/
  capacity : Nat
  /-- The entries, the last used first. -/
  entries : List (String × TokenStream)
deriving DecidableEq

namespace TokenCache

/-- A cache without entries. -/
def ofCapacity (capacity : Nat) : TokenCache := ⟨capacity, []⟩

/-- The number of entries. -/
def size (cache : TokenCache) : Nat :=
  cache.entries.length

/-- The texts of the entries, the last used first. -/
def texts (cache : TokenCache) : List String :=
  cache.entries.map Prod.fst

/-- The tokens kept for a text. -/
def find? (cache : TokenCache) (text : String) : Option TokenStream :=
  (cache.entries.find? fun entry => entry.1 = text).map Prod.snd

/-- Records that the tokens of a text were used: they become the first entry. -/
def use (cache : TokenCache) (text : String) (stream : TokenStream) : TokenCache :=
  { cache with
    entries :=
      ((text, stream) :: cache.entries.filter fun entry => entry.1 ≠ text).take cache.capacity }

variable {cache : TokenCache} {text : String} {stream : TokenStream}

@[simp] theorem capacity_use : (cache.use text stream).capacity = cache.capacity := rfl

@[simp] theorem find?_ofCapacity (capacity : Nat) : (ofCapacity capacity).find? text = none := rfl

theorem find?_use_self (h : 0 < cache.capacity) :
    (cache.use text stream).find? text = some stream := by
  obtain ⟨n, hn⟩ := Nat.exists_eq_succ_of_ne_zero (Nat.pos_iff_ne_zero.1 h)
  simp [use, find?, hn]

theorem length_use_le : (cache.use text stream).size ≤ cache.capacity := by
  simp only [size, use, List.length_take]
  omega

/-- Using a text puts it in front of the others. -/
theorem texts_use :
    (cache.use text stream).texts =
      (text :: cache.texts.filter fun other => other ≠ text).take cache.capacity := by
  simp [texts, use, List.map_take, List.filter_map, Function.comp_def]

end TokenCache

end Abacus
