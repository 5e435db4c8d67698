import Mathlib.Data.List.Basic
import Mathlib.Tactic.Ring

/-!
# Self-delimiting formats

A `Format` writes values as bytes in such a way that a reader knows where a value ends: `decode`
finds the value at the front of any input that starts with it, and says what is left.  This is what
text formats with brackets have in common, and it is all that a program which writes a value in
front of something else relies on.  The law is a field of the structure, so that every format has
it.

Formats are put together from formats (`pair`, `list`, `option`, `map`), starting from those for
numbers: `nat` is in unary and easy to reason about, `varint` is what compact binary formats use,
and `fixed` is a machine word in a known number of bytes.
-/

structure Format (α : Type) where
  encode : α → List UInt8
  /-- The value at the front of the input, and the rest of the input. -/
  decode : List UInt8 → Option (α × List UInt8)
  decode_encode : ∀ a rest, decode (encode a ++ rest) = some (a, rest)

namespace Format

variable {α β : Type}

/-- A reader of whole inputs. -/
def parse (F : Format α) (input : List UInt8) : Option α :=
  match F.decode input with
  | some (a, []) => some a
  | _ => none

@[simp]
theorem parse_encode (F : Format α) (a : α) : F.parse (F.encode a) = some a := by
  have h := F.decode_encode a []
  rw [List.append_nil] at h
  rw [parse, h]

/-- What is written in front of something can be told from it. -/
theorem encode_append_inj (F : Format α) {a a' : α} {rest rest' : List UInt8}
    (h : F.encode a ++ rest = F.encode a' ++ rest') : a = a' ∧ rest = rest' := by
  have hsome := F.decode_encode a rest
  rw [h, F.decode_encode, Option.some_inj] at hsome
  exact ⟨(Prod.mk.inj hsome).1.symm, (Prod.mk.inj hsome).2.symm⟩

/-! ## Making formats -/

section Nat

def encodeNat : ℕ → List UInt8
  | 0 => [0]
  | n + 1 => 1 :: encodeNat n

def decodeNat : List UInt8 → Option (ℕ × List UInt8)
  | [] => none
  | byte :: rest =>
    if byte = 0 then some (0, rest)
    else (decodeNat rest).map fun r => (r.1 + 1, r.2)

/-- A natural number in unary. -/
def nat : Format ℕ where
  encode := encodeNat
  decode := decodeNat
  decode_encode n rest := by
    induction n with
    | zero => rfl
    | succ n ih =>
      change (decodeNat (encodeNat n ++ rest)).map _ = _
      rw [ih]
      rfl

end Nat

section Varint

/-- Seven bits to a byte, the lowest first; the high bit says that there is more. -/
def encodeVarint (n : ℕ) : List UInt8 :=
  if n < 128 then [UInt8.ofNat n]
  else UInt8.ofNat (n % 128 + 128) :: encodeVarint (n / 128)
termination_by n
decreasing_by omega

def decodeVarint : List UInt8 → Option (ℕ × List UInt8)
  | [] => none
  | byte :: rest =>
    if byte.toNat < 128 then some (byte.toNat, rest)
    else (decodeVarint rest).map fun r => (byte.toNat - 128 + 128 * r.1, r.2)

/-- A natural number in base 128. -/
def varint : Format ℕ where
  encode := encodeVarint
  decode := decodeVarint
  decode_encode n rest := by
    induction n using encodeVarint.induct with
    | case1 n h =>
      have hbyte : (UInt8.ofNat n).toNat = n := UInt8.toNat_ofNat_of_lt' (by change n < 256; omega)
      rw [encodeVarint, if_pos h, List.singleton_append, decodeVarint, hbyte, if_pos h]
    | case2 n h ih =>
      have hbyte : (UInt8.ofNat (n % 128 + 128)).toNat = n % 128 + 128 :=
        UInt8.toNat_ofNat_of_lt' (by change n % 128 + 128 < 256; omega)
      rw [encodeVarint, if_neg h, List.cons_append, decodeVarint, hbyte, if_neg (by omega), ih,
        Option.map_some, Nat.add_sub_cancel, Nat.mod_add_div]

theorem varint_length_le (n k : ℕ) (h : n < 128 ^ (k + 1)) : (varint.encode n).length ≤ k + 1 := by
  induction k generalizing n with
  | zero =>
    have hlength : varint.encode n = [UInt8.ofNat n] := by
      change encodeVarint n = _
      rw [encodeVarint, if_pos (by simpa using h)]
    rw [hlength]
    exact le_rfl
  | succ k ih =>
    change (encodeVarint n).length ≤ _
    rw [encodeVarint]
    split
    · simp
    have hdiv : n / 128 < 128 ^ (k + 1) := by
      rw [Nat.div_lt_iff_lt_mul (by omega)]
      rwa [pow_succ] at h
    exact Nat.succ_le_succ (ih (n / 128) hdiv)

end Varint

section Fixed

/-- The last `k` digits in base 256, the highest first. -/
def encodeFixed : ℕ → ℕ → List UInt8
  | 0, _ => []
  | k + 1, n => UInt8.ofNat (n / 256 ^ k) :: encodeFixed k n

def decodeFixed : ℕ → ℕ → List UInt8 → Option (ℕ × List UInt8)
  | 0, read, rest => some (read, rest)
  | _ + 1, _, [] => none
  | k + 1, read, byte :: rest => decodeFixed k (read * 256 + byte.toNat) rest

theorem encodeFixed_length {k n : ℕ} : (encodeFixed k n).length = k := by
  induction k with
  | zero => rfl
  | succ k ih => rw [encodeFixed, List.length_cons, ih]

theorem decodeFixed_encodeFixed {k n read : ℕ} {rest : List UInt8} :
    decodeFixed k read (encodeFixed k n ++ rest) = some (read * 256 ^ k + n % 256 ^ k, rest) := by
  induction k generalizing read with
  | zero => simp [encodeFixed, decodeFixed, Nat.mod_one]
  | succ k ih =>
    have hbyte : (UInt8.ofNat (n / 256 ^ k)).toNat = n / 256 ^ k % 256 := UInt8.toNat_ofNat'
    rw [encodeFixed, List.cons_append, decodeFixed, ih, hbyte, Nat.mod_pow_succ]
    congr 2
    ring

/-- A machine word in `k` bytes, the highest first. -/
def fixed (k : ℕ) : Format (BitVec (8 * k)) where
  encode x := encodeFixed k x.toNat
  decode input := (decodeFixed k 0 input).map fun r => (BitVec.ofNat _ r.1, r.2)
  decode_encode x rest := by
    have hlt : x.toNat < 256 ^ k := by
      have h := x.isLt
      rwa [pow_mul] at h
    rw [decodeFixed_encodeFixed, Option.map_some, Nat.zero_mul, Nat.zero_add, Nat.mod_eq_of_lt hlt,
      BitVec.ofNat_toNat, BitVec.setWidth_eq]

@[simp]
theorem fixed_length (k : ℕ) (x : BitVec (8 * k)) : ((fixed k).encode x).length = k :=
  encodeFixed_length

/-- Reading a word takes its bytes off the input. -/
theorem length_of_fixed_decode {k : ℕ} {input rest : List UInt8} {x : BitVec (8 * k)}
    (h : (fixed k).decode input = some (x, rest)) : input.length = k + rest.length := by
  have hread : ∀ (k read : ℕ) (input : List UInt8) (r : ℕ × List UInt8),
      decodeFixed k read input = some r → input.length = k + r.2.length := by
    intro k
    induction k with
    | zero =>
      intro read input r h
      rw [decodeFixed, Option.some_inj] at h
      subst h
      exact (Nat.zero_add _).symm
    | succ k ih =>
      intro read input r h
      cases input with
      | nil => exact absurd h (by simp [decodeFixed])
      | cons =>
        have hlength := ih _ _ _ h
        rw [List.length_cons, hlength]
        omega
  obtain ⟨r, hr, heq⟩ := Option.map_eq_some_iff.mp h
  rw [hread k 0 input r hr, (Prod.mk.inj heq).2]

end Fixed

/-- A byte as it is. -/
def byte : Format UInt8 where
  encode b := [b]
  decode
    | [] => none
    | b :: rest => some (b, rest)
  decode_encode _ _ := rfl

def pair (F : Format α) (G : Format β) : Format (α × β) where
  encode p := F.encode p.1 ++ G.encode p.2
  decode input := (F.decode input).bind fun r => (G.decode r.2).map fun s => ((r.1, s.1), s.2)
  decode_encode p rest := by
    rw [List.append_assoc, F.decode_encode, Option.bind_some, G.decode_encode]
    rfl

/-- The values of one type, written as values of another. -/
def map (F : Format β) (write : α → β) (read : β → Option α) (h : ∀ a, read (write a) = some a) :
    Format α where
  encode a := F.encode (write a)
  decode input := (F.decode input).bind fun r => (read r.1).map fun a => (a, r.2)
  decode_encode a rest := by
    rw [F.decode_encode, Option.bind_some, h]
    rfl

/-- A list that is known to be this long. -/
def decodeVector (F : Format α) : ℕ → List UInt8 → Option (List α × List UInt8)
  | 0, input => some ([], input)
  | n + 1, input => (F.decode input).bind fun r =>
    (decodeVector F n r.2).map fun s => (r.1 :: s.1, s.2)

theorem decodeVector_flatMap {F : Format α} {l : List α} {rest : List UInt8} :
    decodeVector F l.length (l.flatMap F.encode ++ rest) = some (l, rest) := by
  induction l with
  | nil => rfl
  | cons a l ih =>
    rw [List.flatMap_cons, List.append_assoc, List.length_cons, decodeVector, F.decode_encode,
      Option.bind_some, ih]
    rfl

/-- A list: its length, and then its elements. -/
def list (F : Format α) : Format (List α) where
  encode l := nat.encode l.length ++ l.flatMap F.encode
  decode input := (nat.decode input).bind fun r => decodeVector F r.1 r.2
  decode_encode l rest := by
    rw [List.append_assoc, nat.decode_encode, Option.bind_some, decodeVector_flatMap]

/-- A list whose length is a `varint`. -/
def vec (F : Format α) : Format (List α) where
  encode l := varint.encode l.length ++ l.flatMap F.encode
  decode input := (varint.decode input).bind fun r => decodeVector F r.1 r.2
  decode_encode l rest := by
    rw [List.append_assoc, varint.decode_encode, Option.bind_some, decodeVector_flatMap]

def option (F : Format α) : Format (Option α) :=
  map (list F) Option.toList (fun l => some l.head?) fun a => by cases a <;> rfl

end Format
