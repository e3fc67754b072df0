/-
  Subject: WHAT IS STORED OF A VALUE (`hh_shared.c`, `hh_store_ocaml` and `hh_deserialize`).

  * `Codec` -- the marshalling of OCaml and the compression, which are libraries;
  * `hhStoreOcaml`, `hhDeserialize` -- from a value to its entry, and back;
  * `deserialize_write` -- **a value that was stored is read back**, compressed or not.
-/
import Mathlib.Data.Nat.Bitwise
import Pysa.Lib.ByteMemory

namespace Pysa.MasterHeap

/-! ## 1. Values -/

/-- An OCaml value: the bytes of a string are stored as they are. -/
inductive Value (O : Type) where
  | string (contents : List UInt8)
  | other (value : O)

structure Codec (O : Type) where
  /-- `caml_output_value_to_malloc` -/
  output : O → List UInt8
  /-- `caml_input_value_from_block` -/
  input : List UInt8 → O
  /-- `ZSTD_compress2`; the code of an error is larger than any size -/
  compress : List UInt8 → Option (List UInt8)
  /-- `ZSTD_decompressDCtx`, to a buffer of some size -/
  decompress : List UInt8 → ℕ → Option (List UInt8)

variable {O : Type}

/-- What the libraries document. -/
structure Codec.Lawful (codec : Codec O) : Prop where
  input_output : ∀ value, codec.input (codec.output value) = value
  decompress_compress : ∀ data compressed, codec.compress data = some compressed →
    codec.decompress compressed data.length = some data

/-! ## 2. Headers -/

def kindSerialized : ℕ := 0

def kindString : ℕ := 1

/-- `size << 33 | kind << 32 | uncompressed_size << 1 | 1` -/
def packHeader (size kind uncompressedSize : ℕ) : ℕ :=
  size <<< 33 ||| kind <<< 32 ||| uncompressedSize <<< 1 ||| 1

def entrySize (header : ℕ) : ℕ := header >>> 33

def entryKind (header : ℕ) : ℕ := header >>> 32 &&& 1

def entryUncompressedSize (header : ℕ) : ℕ := header >>> 1 &&& 0x7FFFFFFF

section Header

variable {size kind uncompressedSize : ℕ}

theorem packHeader_eq (hkind : kind < 2) (huncompressed : uncompressedSize < 2147483648) :
    packHeader size kind uncompressedSize =
      size * 8589934592 + kind * 4294967296 + uncompressedSize * 2 + 1 := by
  have htag : uncompressedSize <<< 1 ||| 1 = uncompressedSize * 2 + 1 := by
    rw [← Nat.shiftLeft_add_eq_or_of_lt (show 1 < 2 ^ 1 by decide), Nat.shiftLeft_eq]
  have hlow : kind <<< 32 ||| (uncompressedSize * 2 + 1) =
      kind * 4294967296 + (uncompressedSize * 2 + 1) := by
    have hlt : uncompressedSize * 2 + 1 < 2 ^ 32 := by
      show uncompressedSize * 2 + 1 < 4294967296
      omega
    rw [← Nat.shiftLeft_add_eq_or_of_lt hlt, Nat.shiftLeft_eq]
  have hlt : kind * 4294967296 + (uncompressedSize * 2 + 1) < 2 ^ 33 := by
    show kind * 4294967296 + (uncompressedSize * 2 + 1) < 8589934592
    omega
  rw [packHeader, Nat.or_assoc, Nat.or_assoc, htag, hlow, ← Nat.shiftLeft_add_eq_or_of_lt hlt,
    Nat.shiftLeft_eq, Nat.add_assoc, Nat.add_assoc]

theorem entrySize_packHeader (hkind : kind < 2) (huncompressed : uncompressedSize < 2147483648) :
    entrySize (packHeader size kind uncompressedSize) = size := by
  rw [entrySize, packHeader_eq hkind huncompressed, Nat.shiftRight_eq_div_pow]
  show (_ : ℕ) / 8589934592 = size
  omega

theorem entryKind_packHeader (hkind : kind < 2) (huncompressed : uncompressedSize < 2147483648) :
    entryKind (packHeader size kind uncompressedSize) = kind := by
  rw [entryKind, packHeader_eq hkind huncompressed, Nat.shiftRight_eq_div_pow,
    Nat.and_one_is_mod]
  show (_ : ℕ) / 4294967296 % 2 = kind
  omega

theorem entryUncompressedSize_packHeader (hkind : kind < 2)
    (huncompressed : uncompressedSize < 2147483648) :
    entryUncompressedSize (packHeader size kind uncompressedSize) = uncompressedSize := by
  rw [entryUncompressedSize, packHeader_eq hkind huncompressed, Nat.shiftRight_eq_div_pow,
    show (0x7FFFFFFF : ℕ) = 2 ^ 31 - 1 from rfl, Nat.and_two_pow_sub_one_eq_mod]
  show (_ : ℕ) / 2 % 2147483648 = uncompressedSize
  omega

end Header

/-- A header with as many bytes behind it as it says; its lowest bit is set. -/
structure Entry where
  header : ℕ
  data : List UInt8
  odd : header % 2 = 1
  lt : header < ByteMemory.limit 8
  size_eq : entrySize header = data.length

/-! ## 3. Storing a value -/

/-- The kind of a value, and its bytes. -/
def serialize (codec : Codec O) : Value O → ℕ × List UInt8
  | .string contents => (kindString, contents)
  | .other value => (kindSerialized, codec.output value)

theorem serialize_kind_lt (codec : Codec O) (value : Value O) : (serialize codec value).1 < 2 := by
  cases value with
  | string contents => exact Nat.lt_succ_self 1
  | other value => exact Nat.zero_lt_succ 1

/-- The bytes compressed, if this makes them fewer. -/
def compressed (codec : Codec O) (bytes : List UInt8) : Option (List UInt8) :=
  (codec.compress bytes).filter fun compressed =>
    compressed.length ≠ 0 && compressed.length < bytes.length

theorem of_compressed {codec : Codec O} {bytes data : List UInt8}
    (h : compressed codec bytes = some data) :
    codec.compress bytes = some data ∧ data.length ≠ 0 ∧ data.length < bytes.length := by
  obtain ⟨hcompress, hlength⟩ := Option.filter_eq_some_iff.mp h
  rw [Bool.and_eq_true, decide_eq_true_iff, decide_eq_true_iff] at hlength
  exact ⟨hcompress, hlength⟩

/-- The entry of a value, without its place. -/
def hhStoreOcaml (codec : Codec O) (value : Value O) : Except String (ℕ × List UInt8) :=
  let kind := (serialize codec value).1
  let bytes := (serialize codec value).2
  if bytes.length < 0x80000000 then
    match compressed codec bytes with
    | some data => .ok (packHeader data.length kind bytes.length, data)
    | none => .ok (packHeader bytes.length kind 0, bytes)
  else .error "size < 0x80000000"

/-- `orig_size` -/
def origSize (codec : Codec O) (value : Value O) : ℕ := (serialize codec value).2.length

/-- The value of an entry. -/
def decode (codec : Codec O) (header : ℕ) (src : List UInt8) : Except String (Value O) :=
  let uncompressedSizeExp := entryUncompressedSize header
  let data := if uncompressedSizeExp ≠ 0 then codec.decompress src uncompressedSizeExp else some src
  match data with
  | none => .error "uncompressed_size == uncompressed_size_exp"
  | some data =>
    if uncompressedSizeExp ≠ 0 ∧ data.length ≠ uncompressedSizeExp then
      .error "uncompressed_size == uncompressed_size_exp"
    else if entryKind header = kindString then .ok (.string data)
    else .ok (.other (codec.input data))

def hhDeserialize (codec : Codec O) (memory : ByteMemory) (elt : ℕ) : Except String (Value O) :=
  let header := memory.read elt 8
  decode codec header (memory.bytes (elt + 8) (entrySize header))

/-- The header and then the data. -/
def writeEntry (memory : ByteMemory) (chunk header : ℕ) (data : List UInt8) : ByteMemory :=
  (memory.write chunk 8 header).store (chunk + 8) data

section RoundTrip

variable {codec : Codec O} {value : Value O} {header : ℕ} {data : List UInt8}

/-- The data of a value, compressed or not, with the header that says so. -/
theorem store_cases (h : hhStoreOcaml codec value = .ok (header, data)) :
    ∃ size < 2147483648, data.length < 2147483648 ∧
      header = packHeader data.length (serialize codec value).1 size ∧
      (size = 0 ∧ data = (serialize codec value).2 ∨ size ≠ 0 ∧
        size = (serialize codec value).2.length ∧
        codec.compress (serialize codec value).2 = some data) := by
  rw [hhStoreOcaml] at h
  split at h
  · rename_i hlength
    split at h
    · rename_i compressed hcompressed
      obtain ⟨rfl, rfl⟩ := Prod.mk.inj (Except.ok.inj h)
      obtain ⟨hcompress, hne, hlt⟩ := of_compressed hcompressed
      exact ⟨_, hlength, by omega, rfl, .inr ⟨by omega, rfl, hcompress⟩⟩
    · obtain ⟨rfl, rfl⟩ := Prod.mk.inj (Except.ok.inj h)
      exact ⟨0, by decide, hlength, rfl, .inl ⟨rfl, rfl⟩⟩
  · cases h

/-- What `hh_store_ocaml` makes is an entry. -/
theorem entry_of_store (h : hhStoreOcaml codec value = .ok (header, data)) :
    header % 2 = 1 ∧ header < ByteMemory.limit 8 ∧ entrySize header = data.length := by
  have hkind := serialize_kind_lt codec value
  obtain ⟨size, hsize, hlength, rfl, -⟩ := store_cases h
  refine ⟨?_, ?_, entrySize_packHeader hkind hsize⟩
  · rw [packHeader_eq hkind hsize]
    omega
  · rw [packHeader_eq hkind hsize]
    show _ < 18446744073709551616
    omega

theorem decode_of_store (hlawful : codec.Lawful)
    (h : hhStoreOcaml codec value = .ok (header, data)) : decode codec header data = .ok value := by
  have hkind := serialize_kind_lt codec value
  have hvalue : (if (serialize codec value).1 = kindString then
      Except.ok (Value.string (serialize codec value).2)
      else .ok (.other (codec.input (serialize codec value).2))) =
        (Except.ok value : Except String (Value O)) := by
    cases value with
    | string contents => rw [serialize, if_pos rfl]
    | other value =>
      have hne : kindSerialized ≠ kindString := by decide
      rw [serialize, if_neg hne, hlawful.input_output]
  obtain ⟨size, hsize, -, rfl, ⟨rfl, rfl⟩ | ⟨hne, rfl, hcompress⟩⟩ := store_cases h
  · rw [decode, entryUncompressedSize_packHeader hkind hsize, if_neg (fun hne => hne rfl)]
    dsimp only
    rw [if_neg (fun hlength => hlength.1 rfl), entryKind_packHeader hkind hsize, hvalue]
  · rw [decode, entryUncompressedSize_packHeader hkind hsize, if_pos hne,
      hlawful.decompress_compress _ _ hcompress]
    dsimp only
    rw [if_neg (fun hlength => hlength.2 rfl), entryKind_packHeader hkind hsize, hvalue]

/-- What is read from where an entry was written. -/
theorem read_writeEntry (memory : ByteMemory) (chunk : ℕ) (hlt : header < ByteMemory.limit 8) :
    (writeEntry memory chunk header data).read chunk 8 = header := by
  have hheader : (writeEntry memory chunk header data).read chunk 8 =
      (memory.write chunk 8 header).read chunk 8 :=
    ByteMemory.read_congr fun i hi => ByteMemory.store_of_lt (by omega)
  rw [hheader, ByteMemory.read_write _ _ hlt]

theorem bytes_writeEntry (memory : ByteMemory) (chunk : ℕ) :
    (writeEntry memory chunk header data).bytes (chunk + 8) data.length = data :=
  ByteMemory.bytes_store _ _ _

theorem writeEntry_of_lt {memory : ByteMemory} {chunk b : ℕ} (h : b < chunk) :
    writeEntry memory chunk header data b = memory b := by
  rw [writeEntry, ByteMemory.store_of_lt (by omega), ByteMemory.write_of_lt h]

/-- The header at an address, and the data behind it. -/
def entryAt (memory : ByteMemory) (elt : ℕ) : ℕ × List UInt8 :=
  (memory.read elt 8, memory.bytes (elt + 8) (entrySize (memory.read elt 8)))

theorem entryAt_writeEntry (memory : ByteMemory) (chunk : ℕ) (hlt : header < ByteMemory.limit 8)
    (hsize : entrySize header = data.length) :
    entryAt (writeEntry memory chunk header data) chunk = (header, data) := by
  rw [entryAt, read_writeEntry memory chunk hlt, hsize, bytes_writeEntry]

theorem deserialize_of_entryAt (hlawful : codec.Lawful) {memory : ByteMemory} {elt : ℕ}
    (h : hhStoreOcaml codec value = .ok (entryAt memory elt)) :
    hhDeserialize codec memory elt = .ok value :=
  decode_of_store hlawful h

/-- **What `hh_store_ocaml` has stored at an address, `hh_deserialize` reads from it**: strings and
    other values, compressed or not. -/
theorem deserialize_write (hlawful : codec.Lawful)
    (h : hhStoreOcaml codec value = .ok (header, data)) (memory : ByteMemory) (chunk : ℕ) :
    hhDeserialize codec (writeEntry memory chunk header data) chunk = .ok value := by
  obtain ⟨-, hlt, hsize⟩ := entry_of_store h
  refine deserialize_of_entryAt hlawful ?_
  rw [entryAt_writeEntry memory chunk hlt hsize]
  exact h

end RoundTrip

namespace Sample

/-- What a hundred zeros are compressed to. -/
def zerosFrame : List UInt8 := [40, 181, 47, 253, 32, 100, 69, 0, 0, 16, 0, 0, 1, 0, 63, 1, 44]

/-- The unit value alone, and a compression that shrinks a hundred zeros; all other bytes get a
    header of nine bytes. -/
def frames : Codec Unit where
  output := fun _ => [132, 149, 166, 190, 0, 0, 0, 1] ++ List.replicate 12 0 ++ [64]
  input := fun _ => ()
  compress := fun data =>
    if data = List.replicate 100 0 then some zerosFrame
    else some ([40, 181, 47, 253, 32, .ofNat data.length, .ofNat (data.length * 8 + 1), 0, 0] ++ data)
  decompress := fun compressed size =>
    some (if compressed.length = 9 + size then compressed.drop 9 else List.replicate size 0)

theorem frames_lawful : frames.Lawful where
  input_output := fun _ => rfl
  decompress_compress := by
    intro data compressed hcompress
    simp only [frames] at hcompress ⊢
    split at hcompress
    · rename_i hzero
      cases hcompress
      rw [hzero]
      rfl
    · cases hcompress
      rw [if_pos (by rw [List.length_append]; rfl)]
      rfl

theorem deserialize_write_zeros :
    hhDeserialize frames (writeEntry (fun _ => 7) 24 (packHeader 17 kindString 100) zerosFrame) 24 =
      .ok (.string (List.replicate 100 0)) :=
  deserialize_write frames_lawful rfl (fun _ => 7) 24

end Sample

end Pysa.MasterHeap
