import AbiBindings.Hash.Sponge
import AbiBindings.Proofs.Text.Hexadecimal

/-!
The shape of a digest. No step changes the number of lanes, so every digest has 32 bytes, and
bytes can be told from their hexadecimal digits.
-/

namespace AbiBindings.Hash

namespace Lanes

@[simp] theorem length_addConstant (constant : UInt64) (lanes : Lanes) :
    (addConstant constant lanes).length = lanes.length := by
  cases lanes with
  | nil => rfl
  | cons first rest => rfl

/-- A round gives 25 lanes. -/
@[simp] theorem length_round (lanes : Lanes) (constant : UInt64) :
    (lanes.round constant).length = 25 := by
  rw [round, length_addConstant, mixRows, ofFn, List.length_map, List.length_range]

theorem length_foldl_round (constants : List UInt64) {lanes : Lanes} (h : lanes.length = 25) :
    (constants.foldl round lanes).length = 25 := by
  induction constants generalizing lanes with
  | nil => exact h
  | cons constant rest ih => exact ih (length_round lanes constant)

@[simp] theorem length_absorb (lanes : Lanes) (words : List UInt64) :
    (lanes.absorb words).length = lanes.length := by
  induction words generalizing lanes with
  | nil => rw [absorb]
  | cons word rest ih =>
    cases lanes with
    | nil => rw [absorb]
    | cons lane others => rw [absorb, List.length_cons, List.length_cons, ih]

end Lanes

theorem length_absorbBlocks (count : Nat) {lanes : Lanes} (bytes : List UInt8)
    (h : lanes.length = 25) : (absorbBlocks count lanes bytes).length = 25 := by
  induction count generalizing lanes bytes with
  | zero => exact h
  | succ count ih =>
    apply ih
    apply Lanes.length_foldl_round
    rw [Lanes.length_absorb, h]

theorem length_digest (first : UInt8) (message : List UInt8) :
    (digest first message).length = 32 := by
  have hlanes : ∀ count bytes, ((absorbBlocks count Lanes.zero bytes).take 4).length = 4 := by
    intro count bytes
    have hzero : Lanes.zero.length = 25 := List.length_replicate
    rw [List.length_take, length_absorbBlocks count bytes hzero]
    rfl
  have hbytes : ∀ lanes : List UInt64, (lanes.flatMap bytesOfWord).length = 8 * lanes.length := by
    intro lanes
    induction lanes with
    | nil => rfl
    | cons lane rest ih =>
      have hlane : (bytesOfWord lane).length = 8 := by
        rw [bytesOfWord, List.length_map, List.length_range]
      rw [List.flatMap_cons, List.length_append, ih, hlane, List.length_cons]
      omega
  rw [digest, hbytes, hlanes]

/-- All of a digest are its first 32 bytes. -/
theorem take_keccak256 (message : List UInt8) :
    (keccak256 message).take 32 = keccak256 message :=
  List.take_of_length_le (Nat.le_of_eq (length_digest _ message))

theorem hexOfBytes_cons (byte : UInt8) (rest : List UInt8) :
    hexOfBytes (byte :: rest) = Text.ofHex 2 byte.toNat ++ hexOfBytes rest := List.flatMap_cons

theorem length_hexOfBytes (bytes : List UInt8) : (hexOfBytes bytes).length = 2 * bytes.length := by
  induction bytes with
  | nil => rfl
  | cons byte rest ih =>
    rw [hexOfBytes_cons, List.length_append, Text.length_ofHex, ih, List.length_cons]
    omega

/-- The digits of bytes tell the bytes. -/
theorem hexOfBytes_injective : Function.Injective hexOfBytes := by
  intro bytes bytes' h
  have hlength := congrArg List.length h
  rw [length_hexOfBytes, length_hexOfBytes] at hlength
  induction bytes generalizing bytes' with
  | nil =>
    rw [List.length_nil] at hlength
    exact (List.eq_nil_of_length_eq_zero (by omega)).symm
  | cons byte rest ih =>
    cases bytes' with
    | nil => simp at hlength
    | cons byte' rest' =>
      rw [hexOfBytes_cons, hexOfBytes_cons] at h
      obtain ⟨hbyte, hrest⟩ := List.append_inj h (by simp)
      have hvalue : byte.toNat = byte'.toNat :=
        Text.ofHex_injective byte.toNat_lt byte'.toNat_lt hbyte
      simp only [List.length_cons] at hlength
      rw [UInt8.toNat_inj.mp hvalue, ih hrest (by omega)]

end AbiBindings.Hash
