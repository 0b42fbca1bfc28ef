-- The integer types through text, bytes and order (src/types/builtin_types.cpp).
-- A text is read as the number that its sign and digits spell, and every
-- number in range has one text and one encoding.
import Mathlib.Data.List.TakeWhile
import Edb.BuiltinTypes

/-! ## What a text denotes -/

namespace dec

/-- A sign or none and a run of digits, which spell the number, and the rest,
which does not go on with a digit. -/
def Numeral (bytes : List UInt8) (i : Int) (tail : List UInt8) : Prop :=
  ∃ digits, digits ≠ [] ∧ (∀ b ∈ digits, is_digit b = true) ∧
    (∀ b ∈ tail.head?, is_digit b = false) ∧
    ((bytes = digits ++ tail ∧ i = value digits) ∨
      (bytes = 43 :: (digits ++ tail) ∧ i = value digits) ∨
      (bytes = 45 :: (digits ++ tail) ∧ i = -(value digits : Int)))

/-- Spaces, and then the numeral of a number. -/
def Denotes (text : List UInt8) (i : Int) (tail : List UInt8) : Prop :=
  ∃ spaces body, text = spaces ++ body ∧ (∀ b ∈ spaces, is_space b = true) ∧ Numeral body i tail

theorem head?_dropWhile {p : UInt8 → Bool} (bytes : List UInt8) :
    ∀ b ∈ (bytes.dropWhile p).head?, p b = false := by
  intro b hb
  have h := List.head?_dropWhile_not p bytes
  rw [hb] at h
  simpa using h

theorem read_nat_eq_some {bytes tail : List UInt8} {n : Nat}
    (h : read_nat bytes = some (n, tail)) :
    ∃ digits, bytes = digits ++ tail ∧ digits ≠ [] ∧ (∀ b ∈ digits, is_digit b = true) ∧
      (∀ b ∈ tail.head?, is_digit b = false) ∧ n = value digits := by
  unfold read_nat at h
  split at h
  · cases h
  · rename_i hne
    cases h
    exact ⟨_, (List.takeWhile_append_dropWhile).symm, by simpa using hne,
      fun b hb => List.mem_takeWhile_imp hb, head?_dropWhile bytes, rfl⟩

theorem read_int_iff {bytes tail : List UInt8} {i : Int} :
    read_int bytes = some (i, tail) ↔ Numeral bytes i tail := by
  constructor
  · intro h
    unfold read_int at h
    split at h
    · obtain ⟨⟨n, rest⟩, hread, heq⟩ := Option.map_eq_some_iff.mp h
      cases heq
      obtain ⟨digits, rfl, hne, hdigits, htail, rfl⟩ := read_nat_eq_some hread
      exact ⟨digits, hne, hdigits, htail, .inr (.inr ⟨rfl, rfl⟩)⟩
    · obtain ⟨⟨n, rest⟩, hread, heq⟩ := Option.map_eq_some_iff.mp h
      cases heq
      obtain ⟨digits, rfl, hne, hdigits, htail, rfl⟩ := read_nat_eq_some hread
      exact ⟨digits, hne, hdigits, htail, .inr (.inl ⟨rfl, rfl⟩)⟩
    · obtain ⟨⟨n, rest⟩, hread, heq⟩ := Option.map_eq_some_iff.mp h
      cases heq
      obtain ⟨digits, rfl, hne, hdigits, htail, rfl⟩ := read_nat_eq_some hread
      exact ⟨digits, hne, hdigits, htail, .inl ⟨rfl, rfl⟩⟩
  · rintro ⟨digits, hne, hdigits, htail, ⟨rfl, rfl⟩ | ⟨rfl, rfl⟩ | ⟨rfl, rfl⟩⟩
    · match digits, hne with
      | d :: ds, _ =>
        rw [List.cons_append, read_int_of_digit (hdigits d (by simp)), ← List.cons_append,
          read_nat_run (List.cons_ne_nil _ _) hdigits htail]
        rfl
    · show (read_nat (digits ++ tail)).map _ = _
      rw [read_nat_run hne hdigits htail]
      rfl
    · show (read_nat (digits ++ tail)).map _ = _
      rw [read_nat_run hne hdigits htail]
      rfl

theorem Numeral.head_not_space {bytes tail : List UInt8} {i : Int} (h : Numeral bytes i tail) :
    ∀ b ∈ bytes.head?, is_space b = false := by
  obtain ⟨digits, hne, hdigits, -, hbytes⟩ := h
  intro b hb
  rcases hbytes with ⟨rfl, -⟩ | ⟨rfl, -⟩ | ⟨rfl, -⟩
  · match digits, hne with
    | d :: ds, _ =>
      cases hb
      exact is_space_of_is_digit (hdigits b (by simp))
  · cases hb
    rfl
  · cases hb
    rfl

/-- The reader that skips spaces reads exactly what the text denotes. -/
theorem denotes_iff {text tail : List UInt8} {i : Int} :
    Denotes text i tail ↔ read_int (text.dropWhile is_space) = some (i, tail) := by
  rw [read_int_iff]
  constructor
  · rintro ⟨spaces, body, rfl, hspaces, hbody⟩
    rwa [dropWhile_run hspaces hbody.head_not_space]
  · intro h
    exact ⟨_, _, (List.takeWhile_append_dropWhile).symm, fun b hb => List.mem_takeWhile_imp hb, h⟩

end dec

namespace edb

/-! ## Bytes and numbers -/

/-- The number that the bytes of a signed type are. -/
def signed_value (bytes : Bytes) : Int := to_signed bytes.length (le.decode bytes)

theorem decode_signed_fixed_eq {n : Nat} {bytes : Bytes} (h : bytes.length = n) :
    decode_signed_fixed n bytes = .ok (signed_value bytes) := by
  subst h
  simp [decode_signed_fixed, signed_value]

theorem to_unsigned_to_signed {n u : Nat} (h : u < 256 ^ n) : to_unsigned n (to_signed n u) = u := by
  have hcast : ((256 ^ n : Nat) : Int) = 256 ^ n := by simp
  unfold to_unsigned to_signed
  rw [← hcast, Int.bmod_emod, Int.emod_eq_of_lt (by omega) (by omega), Int.toNat_natCast]

theorem signed_bytes_signed_value (bytes : Bytes) :
    signed_bytes bytes.length (signed_value bytes) = bytes := by
  unfold signed_bytes signed_value
  rw [to_unsigned_to_signed (le.decode_lt bytes), le.encode_decode]

theorem signed_value_inj {a b : Bytes} (hlen : a.length = b.length)
    (h : signed_value a = signed_value b) : a = b := by
  rw [← signed_bytes_signed_value a, ← signed_bytes_signed_value b, h, hlen]

/-- Bytes of a signed type are a number in its range. -/
theorem fits_signed_value {bytes : Bytes} (hne : bytes ≠ []) :
    fits_signed bytes.length (signed_value bytes) = true := by
  have hcast : ((256 ^ bytes.length : Nat) : Int) = 256 ^ bytes.length := by simp
  have hpos : (0 : Int) < 256 ^ bytes.length := Int.pow_pos (by decide)
  have heven : (2 : Int) ∣ 256 ^ bytes.length :=
    Dvd.dvd.trans (by decide) (dvd_pow_self (256 : Int) (by simpa using hne))
  unfold fits_signed signed_value to_signed
  rw [decide_eq_true_eq]
  have hle := Int.le_bmod (x := (le.decode bytes : Int)) (m := 256 ^ bytes.length) (by positivity)
  have hlt := Int.bmod_lt (x := (le.decode bytes : Int)) (m := 256 ^ bytes.length) (by positivity)
  omega

/-! ## Text and order -/

theorem signed_to_text_eq {n : Nat} {bytes : Bytes} (h : bytes.length = n) :
    signed_to_text n bytes = dec.int_text (signed_value bytes) := by
  unfold signed_to_text
  rw [decode_signed_fixed_eq h]

/-- A text is taken where it denotes a number in range and only spaces follow. -/
theorem parse_signed_fixed_iff {n : Nat} {text bytes : Bytes} :
    parse_signed_fixed n text = .ok bytes ↔ ∃ i tail, dec.Denotes text i tail ∧
      fits_signed n i = true ∧ (∀ b ∈ tail, dec.is_space b = true) ∧ bytes = signed_bytes n i := by
  unfold parse_signed_fixed
  constructor
  · intro h
    split at h
    · cases h
    · rename_i i tail hread
      split at h
      · cases h
      · rename_i hfits
        split at h
        · cases h
        · rename_i hspaces
          cases h
          exact ⟨i, tail, dec.denotes_iff.mpr hread, by simpa using hfits, by simpa using hspaces,
            rfl⟩
  · rintro ⟨i, tail, hden, hfits, hspaces, rfl⟩
    rw [dec.denotes_iff.mp hden]
    simp only [hfits, Bool.not_true, Bool.false_eq_true, if_false]
    rw [if_neg (by simpa using hspaces)]
    rfl

/-- Every text that is not taken is answered in the same way. -/
theorem parse_signed_fixed_error {n : Nat} {text : Bytes}
    (h : ∀ bytes, parse_signed_fixed n text ≠ .ok bytes) :
    parse_signed_fixed n text = .error .InvalidArgument := by
  have herror : ∀ e, parse_signed_fixed n text = .error e → e = .InvalidArgument := by
    intro e he
    unfold parse_signed_fixed at he
    split at he
    · cases he
      rfl
    · split_ifs at he
      · cases he
        rfl
      · cases he
        rfl
  rcases hparse : parse_signed_fixed n text with e | bytes
  · rw [herror e hparse]
  · exact absurd hparse (h bytes)

theorem signed_compare_eq {n : Nat} {a b : Bytes} (ha : a.length = n) (hb : b.length = n) :
    signed_compare n a b = compare (signed_value a) (signed_value b) := by
  unfold signed_compare
  rw [decode_signed_fixed_eq ha, decode_signed_fixed_eq hb]

/-! ## The two types -/

inductive IntegerType where
  | int32
  | int64

namespace IntegerType

def builtin : IntegerType → Builtin
  | int32 => .int32
  | int64 => .int64

def size : IntegerType → Nat
  | int32 => 4
  | int64 => 8

theorem from_text_eq (t : IntegerType) : t.builtin.type.from_text = parse_signed_fixed t.size := by
  cases t <;> rfl

theorem to_text_eq (t : IntegerType) : t.builtin.type.to_text = signed_to_text t.size := by
  cases t <;> rfl

theorem compare_eq (t : IntegerType) : t.builtin.type.compare = signed_compare t.size := by
  cases t <;> rfl

theorem size_pos (t : IntegerType) : 0 < t.size := by
  cases t <;> decide

end IntegerType

/-- Bytes of the size of the type are the encoding of their text. A text is taken
exactly where it denotes a number in the range of the type and nothing but
spaces follows, and it then stands for the canonical text of that number. Two
encodings compare as their numbers do, and they are equal where the numbers
are. -/
theorem integer_types_agree (t : IntegerType) :
    (∀ b : Bytes, b.length = t.size → t.builtin.type.from_text (t.builtin.type.to_text b) = .ok b) ∧
    (∀ s b : Bytes, t.builtin.type.from_text s = .ok b →
      ∃ i tail, dec.Denotes s i tail ∧ (∀ c ∈ tail, dec.is_space c = true) ∧
        fits_signed t.size i = true ∧ t.builtin.type.to_text b = dec.int_text i) ∧
    (∀ s i tail, dec.Denotes s i tail → (∀ c ∈ tail, dec.is_space c = true) →
      fits_signed t.size i = true →
      ∃ b, t.builtin.type.from_text s = .ok b ∧ t.builtin.type.to_text b = dec.int_text i) ∧
    (∀ s i tail, dec.Denotes s i tail →
      (fits_signed t.size i = false ∨ ∃ c ∈ tail, dec.is_space c = false) →
      t.builtin.type.from_text s = .error .InvalidArgument) ∧
    ∀ a b : Bytes, a.length = t.size → b.length = t.size →
      t.builtin.type.compare a b = compare (signed_value a) (signed_value b) ∧
        (t.builtin.type.compare a b = .eq ↔ a = b) := by
  rw [t.from_text_eq, t.to_text_eq, t.compare_eq]
  refine ⟨?_, ?_, ?_, ?_, ?_⟩
  · intro b hb
    have hne : b ≠ [] := List.ne_nil_of_length_pos (hb ▸ t.size_pos)
    have hfits := fits_signed_value hne
    have hback := signed_bytes_signed_value b
    rw [hb] at hfits hback
    rw [signed_to_text_eq hb, parse_int_text hfits, hback]
  · intro s b h
    obtain ⟨i, tail, hden, hfits, hspaces, rfl⟩ := parse_signed_fixed_iff.mp h
    exact ⟨i, tail, hden, hspaces, hfits, signed_to_text_bytes hfits⟩
  · intro s i tail hden hspaces hfits
    exact ⟨_, parse_signed_fixed_iff.mpr ⟨i, tail, hden, hfits, hspaces, rfl⟩,
      signed_to_text_bytes hfits⟩
  · intro s i tail hden hbad
    refine parse_signed_fixed_error fun b h => ?_
    obtain ⟨i', tail', hden', hfits, hspaces, -⟩ := parse_signed_fixed_iff.mp h
    -- a text denotes one number
    have hsame := (dec.denotes_iff.mp hden).symm.trans (dec.denotes_iff.mp hden')
    cases hsame
    rcases hbad with hbad | ⟨c, hc, hbad⟩
    · rw [hbad] at hfits
      cases hfits
    · rw [hspaces c hc] at hbad
      cases hbad
  · intro a b ha hb
    have hcompare := signed_compare_eq ha hb
    refine ⟨hcompare, ?_⟩
    rw [hcompare, compare_eq_iff_eq]
    exact ⟨fun h => signed_value_inj (ha.trans hb.symm) h, fun h => congrArg signed_value h⟩

/-- The least number of 32 bits, and one less. -/
theorem least_int32 :
    Builtin.int32.type.from_text (str " -2147483648 ") = .ok [0, 0, 0, 128] ∧
      Builtin.int32.type.from_text (Builtin.int32.type.to_text [0, 0, 0, 128]) =
        .ok [0, 0, 0, 128] ∧
      Builtin.int32.type.from_text (str "-2147483649") = .error .InvalidArgument ∧
      Builtin.int32.type.compare [0, 0, 0, 128] [255, 255, 255, 127] = .lt := by
  obtain ⟨hback, -, -, hrejects, hcompare⟩ := integer_types_agree .int32
  refine ⟨by decide, hback [0, 0, 0, 128] rfl, ?_, ?_⟩
  · exact hrejects (str "-2147483649") (-2147483649) [] (dec.denotes_iff.mpr (by decide))
      (.inl (by decide))
  · exact (hcompare [0, 0, 0, 128] [255, 255, 255, 127] rfl rfl).1.trans (by decide)

end edb
