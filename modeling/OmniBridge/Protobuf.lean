import Mathlib.Algebra.Order.Ring.Nat

/-! The protobuf encoding of a message, and how long it can get. -/

namespace OmniBridge.Protobuf

/-- Seven bits a byte, the low ones first; the high bit says that more follow. -/
def varint (n : Nat) : List UInt8 :=
  if n < 128 then [.ofNat n] else .ofNat (n % 128 + 128) :: varint (n / 128)

def tag (number wireType : Nat) : List UInt8 := varint (number * 8 + wireType)

def lengthDelimited (number : Nat) (value : List UInt8) : List UInt8 :=
  tag number 2 ++ varint value.length ++ value

inductive Field where
  | uint (number value : Nat)
  | bytes (number : Nat) (value : List UInt8)
  | message (number : Nat) (value : List UInt8)

namespace Field

/-- A scalar that holds its default is left out. -/
def encode : Field → List UInt8
  | uint number value => if value = 0 then [] else tag number 0 ++ varint value
  | bytes number value => if value = [] then [] else lengthDelimited number value
  | message number value => lengthDelimited number value

def size : Field → Nat
  | uint _ _ => 0
  | bytes _ value | message _ value => value.length

def Short : Field → Prop
  | uint number value => number < 32 ∧ value < 2 ^ 64
  | bytes number value | message number value => number < 32 ∧ value.length < 2 ^ 64

end Field

def encode (fields : List Field) : List UInt8 := fields.flatMap Field.encode

variable {n number : Nat} {value : List UInt8} {fields : List Field}

theorem length_varint_le (k : Nat) (h : n < 128 ^ (k + 1)) : (varint n).length ≤ k + 1 := by
  induction k generalizing n with
  | zero =>
    rw [varint, if_pos (by simpa using h)]
    exact Nat.le_refl _
  | succ k ih =>
    rw [varint]
    split
    · simp
    · simpa using ih (Nat.div_lt_of_lt_mul (by rwa [Nat.pow_succ'] at h))

theorem length_lengthDelimited_le (hnumber : number < 32) (h : value.length < 2 ^ 64) :
    (lengthDelimited number value).length ≤ value.length + 12 := by
  have htag : (tag number 2).length ≤ 2 := length_varint_le 1 (by omega)
  have hlen := length_varint_le 9 (Nat.lt_trans h (by decide))
  simp only [lengthDelimited, List.length_append]
  omega

theorem Field.length_encode_le {f : Field} (h : f.Short) : f.encode.length ≤ f.size + 12 := by
  cases f with
  | uint number =>
    have htag : (tag number 0).length ≤ 2 := length_varint_le 1 (by have := h.1; omega)
    have hvalue := length_varint_le 9 (Nat.lt_trans h.2 (by decide))
    rw [encode]
    split
    · simp
    · rw [List.length_append]
      omega
  | bytes =>
    rw [encode]
    split
    · simp
    · exact length_lengthDelimited_le h.1 h.2
  | message => exact length_lengthDelimited_le h.1 h.2

theorem length_encode_le (h : ∀ f ∈ fields, f.Short)
    (hn : (fields.map Field.size).sum + 12 * fields.length ≤ n) : (encode fields).length ≤ n := by
  induction fields generalizing n with
  | nil => exact Nat.zero_le n
  | cons f _ ih =>
    have hf := Field.length_encode_le (h f List.mem_cons_self)
    have hfields := ih (fun g hg => h g (List.mem_cons_of_mem _ hg)) (Nat.le_refl _)
    simp only [encode, List.flatMap_cons, List.length_append, List.map_cons, List.sum_cons,
      List.length_cons] at hfields hn ⊢
    omega

end OmniBridge.Protobuf
