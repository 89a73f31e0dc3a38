import Mathlib.Data.List.Basic

/-! The wire format of tagged fields. A number is written in groups of seven bits, the lowest
first; a field is its tag, then a number, or a length and as many bytes. A message inside a
message is the bytes of a field. -/
namespace Wire

/-- As few groups as the number needs: all but the last have the top bit set. -/
def varint (n : Nat) : List UInt8 :=
  if n < 128 then [UInt8.ofNat n] else UInt8.ofNat (128 + n % 128) :: varint (n / 128)
termination_by n

/-- The number at the front, and what comes after it. -/
def readVarint : List UInt8 → Option (Nat × List UInt8)
  | [] => none
  | byte :: rest =>
    if byte.toNat < 128 then some (byte.toNat, rest)
    else (readVarint rest).map fun (high, after) => (128 * high + (byte.toNat - 128), after)

inductive Value where
  | number (n : Nat)
  | bytes (content : List UInt8)
  deriving DecidableEq

structure Field where
  number : Nat
  value : Value
  deriving DecidableEq

def Value.wireType : Value → Nat
  | .number _ => 0
  | .bytes _ => 2

def Value.encode : Value → List UInt8
  | .number n => varint n
  | .bytes content => varint content.length ++ content

def Field.encode (field : Field) : List UInt8 :=
  varint (8 * field.number + field.value.wireType) ++ field.value.encode

def encode (fields : List Field) : List UInt8 := fields.flatMap Field.encode

/-- The field at the front. There are other wire types, of fixed width, which no message
here has. -/
def readField (input : List UInt8) : Option (Field × List UInt8) :=
  (readVarint input).bind fun (tag, rest) =>
    (readVarint rest).bind fun (n, after) =>
      if tag % 8 = 0 then some (⟨tag / 8, .number n⟩, after)
      else if tag % 8 = 2 ∧ n ≤ after.length then some (⟨tag / 8, .bytes (after.take n)⟩, after.drop n)
      else none

/-- At most `most` fields up to the end. -/
def readFields : Nat → List UInt8 → Option (List Field)
  | _, [] => some []
  | 0, _ :: _ => none
  | most + 1, input => (readField input).bind fun (field, rest) => (readFields most rest).map (field :: ·)

/-- No message has more fields than bytes. -/
def decode (input : List UInt8) : Option (List Field) := readFields input.length input

/-- All byte contents of a field, in order. -/
def contents (number : Nat) (fields : List Field) : List (List UInt8) :=
  fields.filterMap fun field =>
    match field.value with
    | .bytes content => if field.number = number then some content else none
    | .number _ => none

def numbers (number : Nat) (fields : List Field) : List Nat :=
  fields.filterMap fun field =>
    match field.value with
    | .number n => if field.number = number then some n else none
    | .bytes _ => none

theorem toNat_ofNat {n : Nat} (byte : n < 256) : (UInt8.ofNat n).toNat = n := by
  rw [UInt8.toNat_ofNat']
  exact Nat.mod_eq_of_lt byte

theorem varint_ne_nil (n : Nat) : varint n ≠ [] := by
  rw [varint]
  split <;> simp

/-- A reader stops after the number that was written. -/
theorem readVarint_varint (n : Nat) (rest : List UInt8) : readVarint (varint n ++ rest) = some (n, rest) := by
  induction n using Nat.strongRecOn with
  | ind n ih =>
    rw [varint]
    split
    next small =>
      simp only [List.singleton_append,readVarint,toNat_ofNat (show n < 256 by omega),small,if_true]
    next large =>
      have byte : (UInt8.ofNat (128 + n % 128)).toNat = 128 + n % 128 := toNat_ofNat (by omega)
      have more : ¬ 128 + n % 128 < 128 := by omega
      simp only [List.cons_append,readVarint,byte,more,if_false,ih (n / 128) (by omega),Option.map_some,
        Option.some.injEq,Prod.mk.injEq,and_true]
      omega

/-- Only zero has a zero byte: the last group of a larger number is not empty. -/
theorem zero_mem_varint {n : Nat} : 0 ∈ varint n ↔ n = 0 := by
  induction n using Nat.strongRecOn with
  | ind n ih =>
    rw [varint]
    split
    next small =>
      rw [List.mem_singleton,← UInt8.toNat_inj,toNat_ofNat (show n < 256 by omega)]
      exact eq_comm
    next large =>
      have byte : (0 : UInt8) ≠ UInt8.ofNat (128 + n % 128) := by
        rw [Ne,← UInt8.toNat_inj,toNat_ofNat (by omega),UInt8.toNat_zero]
        omega
      rw [List.mem_cons,or_iff_right byte,ih (n / 128) (by omega)]
      omega

theorem readField_encode (field : Field) (rest : List UInt8) :
    readField (field.encode ++ rest) = some (field, rest) := by
  obtain ⟨number, value⟩ := field
  cases value with
  | number n =>
    have tag : (8 * number + 0) % 8 = 0 ∧ (8 * number + 0) / 8 = number := by omega
    simp only [readField,Field.encode,Value.wireType,Value.encode,List.append_assoc,readVarint_varint,
      Option.bind_some,tag,if_true]
  | bytes content =>
    have tag : (8 * number + 2) % 8 = 2 ∧ (8 * number + 2) / 8 = number := by omega
    simp only [readField,Field.encode,Value.wireType,Value.encode,List.append_assoc,readVarint_varint,
      Option.bind_some,tag]
    simp

theorem encode_cons (field : Field) (fields : List Field) :
    encode (field :: fields) = field.encode ++ encode fields := rfl

theorem encode_ne_nil (field : Field) : field.encode ≠ [] :=
  List.append_ne_nil_of_left_ne_nil (varint_ne_nil _) _

theorem readFields_encode (fields : List Field) {most : Nat} (enough : fields.length ≤ most) :
    readFields most (encode fields) = some fields := by
  induction fields generalizing most with
  | nil => cases most <;> rfl
  | cons field rest ih =>
    obtain ⟨most, rfl⟩ : ∃ less, most = less + 1 := ⟨most - 1, by simp at enough; omega⟩
    rw [encode_cons]
    obtain ⟨byte, bytes, is⟩ := List.exists_cons_of_ne_nil
      (List.append_ne_nil_of_left_ne_nil (encode_ne_nil field) (encode rest))
    rw [is,readFields,← is,readField_encode]
    · simp only [Option.bind_some,ih (Nat.le_of_succ_le_succ enough),Option.map_some]
    · simp

theorem length_le_encode (fields : List Field) : fields.length ≤ (encode fields).length := by
  induction fields with
  | nil => exact Nat.le_refl 0
  | cons field rest ih =>
    have some_bytes := List.length_pos_of_ne_nil (encode_ne_nil field)
    rw [encode_cons,List.length_append,List.length_cons]
    omega

/-- What was encoded is decoded. -/
theorem decode_encode (fields : List Field) : decode (encode fields) = some fields :=
  readFields_encode fields (length_le_encode fields)

theorem zero_mem_field {number : Nat} (numbered : 0 < number) (value : Value) :
    0 ∈ (⟨number, value⟩ : Field).encode ↔ 0 ∈ value.encode := by
  have tag : 0 ∉ varint (8 * number + value.wireType) := by
    rw [zero_mem_varint]
    omega
  rw [Field.encode,List.mem_append,or_iff_right tag]

/-- The length of a field is written without a zero byte unless it is zero. -/
theorem zero_mem_bytes (content : List UInt8) :
    0 ∈ (Value.bytes content).encode ↔ content = [] ∨ 0 ∈ content := by
  rw [Value.encode,List.mem_append,zero_mem_varint,List.length_eq_zero_iff]

end Wire
