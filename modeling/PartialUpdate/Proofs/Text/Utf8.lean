import Mathlib.Data.List.Basic
import PartialUpdate.Proofs.Outcome
import PartialUpdate.Text.Utf8

/-!
UTF-8 is read back. Each character is read from its bytes, whatever follows them, so the bytes of
a text are read as that text.
-/

set_option autoImplicit false

namespace PartialUpdate.Utf8

theorem toList_loop (bytes : ByteArray) (position : Nat) (earlier : List UInt8) :
    ByteArray.toList.loop bytes position earlier =
      earlier.reverse ++ bytes.data.toList.drop position := by
  fun_induction ByteArray.toList.loop bytes position earlier with
  | case1 position earlier inside ih =>
    have bound : position < bytes.data.toList.length := by simpa using inside
    rw [ih, List.drop_eq_getElem_cons bound]
    simp [ByteArray.get!, inside]
  | case2 position earlier outside =>
    rw [List.drop_eq_nil_of_le (by simpa using Nat.le_of_not_lt outside)]
    simp

/-- The bytes of a text are those of its characters, one after another. -/
theorem encode_ofList (cs : List Char) :
    encode (String.ofList cs) = cs.flatMap String.utf8EncodeChar := by
  rw [encode, String.toUTF8, String.toByteArray_ofList, List.utf8Encode, ByteArray.toList,
    toList_loop, List.toList_data_toByteArray]
  rfl

/-! The bytes of a character. Its code point is cut into groups of six bits. -/

theorem toNat_byte {n : Nat} (small : n < 256) : (UInt8.ofNat n).toNat = n := by
  rw [UInt8.toNat_ofNat', Nat.mod_eq_of_lt small]

theorem continuation_byte {owed low high bits n : Nat} {rest : List UInt8} (small : n < 256)
    (above : low ≤ n) (below : n ≤ high) {found : Nat × List UInt8}
    (later : continuation owed 0x80 0xbf (bits * 64 + (n - 0x80)) rest = .ok found) :
    continuation (owed + 1) low high bits (UInt8.ofNat n :: rest) = .ok found := by
  rw [continuation, toNat_byte small, if_pos ⟨above, below⟩, later]

theorem continuation_done {low high bits code : Nat} {rest : List UInt8} (same : bits = code) :
    continuation 0 low high bits rest = .ok (code, rest) := by
  rw [continuation, same]

theorem next_lead {n code : Nat} {lead : Lead} {tail rest : List UInt8} {position : Nat}
    (small : n < 256) (leads : lead? n = some lead)
    (later : continuation lead.owed lead.low lead.high lead.bits (tail ++ rest) =
      .ok (code, rest)) :
    next position (UInt8.ofNat n) (tail ++ rest) =
      .ok ⟨Char.ofNat code, position + 1 + lead.owed, rest⟩ := by
  rw [next, toNat_byte small, leads]
  simp only [later]

/-- A code point is no surrogate and at most 10FFFF. -/
theorem toNat_valid (c : Char) : c.toNat < 0xd800 ∨ 0xdfff < c.toNat ∧ c.toNat < 0x110000 := by
  have valid := c.valid
  simpa [UInt32.isValidChar, Nat.isValidChar] using valid

theorem lead?_two {n : Nat} (least : 0xc2 ≤ n) (bound : n < 0xe0) :
    lead? n = some ⟨n - 0xc0, 1, 0x80, 0xbf⟩ := by
  rw [lead?, if_neg (by omega), if_neg (by omega), if_pos bound]

theorem lead?_three {n : Nat} (least : 0xe0 ≤ n) (bound : n < 0xf0) : lead? n =
    some ⟨n - 0xe0, 2, if n = 0xe0 then 0xa0 else 0x80, if n = 0xed then 0x9f else 0xbf⟩ := by
  rw [lead?, if_neg (by omega), if_neg (by omega), if_neg (by omega), if_pos bound]

theorem lead?_four {n : Nat} (least : 0xf0 ≤ n) (bound : n < 0xf5) : lead? n =
    some ⟨n - 0xf0, 3, if n = 0xf0 then 0x90 else 0x80, if n = 0xf4 then 0x8f else 0xbf⟩ := by
  rw [lead?, if_neg (by omega), if_neg (by omega), if_neg (by omega), if_neg (by omega),
    if_pos bound]

/-- A character is read from its bytes, before anything. -/
theorem next_encoded (c : Char) (position : Nat) (rest : List UInt8) :
    ∃ first tail after, String.utf8EncodeChar c = first :: tail ∧
      next position first (tail ++ rest) = .ok ⟨c, after, rest⟩ := by
  have valid := toNat_valid c
  have whole : Char.ofNat c.toNat = c := Char.ofNat_toNat c
  unfold String.utf8EncodeChar
  rw [Char.toNat] at valid whole
  generalize c.val.toNat = v at valid whole
  dsimp only
  rw [← whole]
  split
  next =>
    refine ⟨_, _, _, rfl, next_lead (by omega) (if_pos (by omega)) ?_⟩
    exact continuation_done rfl
  split
  next =>
    refine ⟨_, _, _, rfl, next_lead (by omega) (lead?_two (by omega) (by omega)) ?_⟩
    refine continuation_byte (by omega) (by dsimp only; omega) (by dsimp only; omega) ?_
    refine continuation_done ?_
    dsimp only
    omega
  -- The range of the second byte leaves out what fits in fewer bytes, surrogates, and what is past
  -- the last code point.
  split
  next =>
    refine ⟨_, _, _, rfl, next_lead (by omega) (lead?_three (by omega) (by omega)) ?_⟩
    refine continuation_byte (by omega) (by dsimp only; split <;> omega)
      (by dsimp only; split <;> omega) ?_
    refine continuation_byte (by omega) (by omega) (by omega) ?_
    refine continuation_done ?_
    dsimp only
    omega
  next =>
    refine ⟨_, _, _, rfl, next_lead (by omega) (lead?_four (by omega) (by omega)) ?_⟩
    refine continuation_byte (by omega) (by dsimp only; split <;> omega)
      (by dsimp only; split <;> omega) ?_
    refine continuation_byte (by omega) (by omega) (by omega) ?_
    refine continuation_byte (by omega) (by omega) (by omega) ?_
    refine continuation_done ?_
    dsimp only
    omega

/-- By induction on the characters; each takes one of the bounded steps, and a byte at least. -/
theorem decodeFrom_encoded (cs : List Char) {count : Nat}
    (enough : (cs.flatMap String.utf8EncodeChar).length ≤ count) (position : Nat) :
    decodeFrom count position (cs.flatMap String.utf8EncodeChar) = .ok cs := by
  induction cs generalizing count position with
  | nil => cases count <;> rfl
  | cons c cs ih =>
    obtain ⟨first, tail, after, bytes, read⟩ :=
      next_encoded c position (cs.flatMap String.utf8EncodeChar)
    rw [List.flatMap_cons, bytes, List.cons_append] at enough ⊢
    cases count with
    | zero => exact nomatch enough
    | succ count =>
      have later : (cs.flatMap String.utf8EncodeChar).length ≤ count := by
        simp only [List.length_cons, List.length_append] at enough
        omega
      rw [decodeFrom, read]
      exact bind_ok_iff.2 ⟨_, rfl, bind_ok_iff.2 ⟨cs, ih later after, rfl⟩⟩

/-- The bytes of a text are read as that text. -/
theorem decode_encode (text : String) : decode (encode text) = .ok text := by
  rw [← String.ofList_toList (s := text), encode_ofList, decode]
  exact bind_ok_iff.2 ⟨_, decodeFrom_encoded _ (Nat.le_refl _) 0, rfl⟩

end PartialUpdate.Utf8
