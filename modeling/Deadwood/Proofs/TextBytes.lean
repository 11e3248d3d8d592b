import Deadwood.Files.Tree

/-!
# Texts in bytes

The bytes of a text are read back as the text, whatever its characters. A text that is read from a file has no carriage return,
so what is made of it without bringing one in can be written and read again.
-/

set_option autoImplicit false
namespace Deadwood.Text

/-! ## One character -/

section Bytes

variable {begun : Begun} {byte : Nat}

theorem toNat_byte (small : byte < 256) : (UInt8.ofNat byte).toNat = byte := by
  rw [UInt8.toNat_ofNat']
  exact Nat.mod_eq_of_lt small

theorem piecesFrom_ascii (low : byte < 0x80) (rest : Bytes) :
    piecesFrom none (UInt8.ofNat byte :: rest) = .char (Char.ofNat byte) 1 :: piecesFrom none rest := by
  rw [piecesFrom, toNat_byte (by omega), stepByte, stepFresh, if_pos low]
  rfl

theorem piecesFrom_lead (high : 0x80 ≤ byte) (small : byte < 256) (begins : begin? byte = some begun) (rest : Bytes) :
    piecesFrom none (UInt8.ofNat byte :: rest) = piecesFrom (some begun) rest := by
  rw [piecesFrom, toNat_byte small, stepByte, stepFresh, if_neg (by omega), begins]
  rfl

/-- A byte within the bounds goes on with the character that has begun. -/
theorem piecesFrom_more {bits owed least greatest taken tail : Nat} (bounds : least ≤ tail + 0x80 ∧ tail + 0x80 ≤ greatest)
    (small : tail < 64) (rest : Bytes) :
    piecesFrom (some ⟨bits, owed + 2, least, greatest, taken⟩) (UInt8.ofNat (tail + 0x80) :: rest) =
      piecesFrom (some ⟨bits * 64 + tail, owed + 1, 0x80, 0xbf, taken + 1⟩) rest := by
  have both : (least ≤ tail + 0x80 && tail + 0x80 ≤ greatest) = true := by simpa using bounds
  have other : owed + 2 ≠ 1 := by omega
  simp only [piecesFrom, toNat_byte (show tail + 0x80 < 256 by omega), stepByte, if_pos both, if_neg other,
    Nat.add_sub_cancel, List.nil_append]
  rfl

theorem piecesFrom_last {bits least greatest taken tail : Nat} (bounds : least ≤ tail + 0x80 ∧ tail + 0x80 ≤ greatest)
    (small : tail < 64) (rest : Bytes) :
    piecesFrom (some ⟨bits, 1, least, greatest, taken⟩) (UInt8.ofNat (tail + 0x80) :: rest) =
      .char (Char.ofNat (bits * 64 + tail)) (taken + 1) :: piecesFrom none rest := by
  have both : (least ≤ tail + 0x80 && tail + 0x80 ≤ greatest) = true := by simpa using bounds
  simp only [piecesFrom, toNat_byte (show tail + 0x80 < 256 by omega), stepByte, if_pos both, if_true,
    Nat.add_sub_cancel, List.singleton_append]

end Bytes

theorem bounds_of_char (c : Char) : c.toNat < 0xd800 ∨ 0xdfff < c.toNat ∧ c.toNat < 0x110000 :=
  c.valid

theorem piecesFrom_utf8EncodeChar (c : Char) (rest : Bytes) :
    piecesFrom none (String.utf8EncodeChar c ++ rest) =
      .char c (String.utf8EncodeChar c).length :: piecesFrom none rest := by
  have bounds := bounds_of_char c
  have whole : c.val.toNat = c.toNat := rfl
  unfold String.utf8EncodeChar
  dsimp only
  rw [whole]
  have code : Char.ofNat c.toNat = c := Char.ofNat_toNat c
  generalize c.toNat = value at bounds code
  split
  · rw [List.singleton_append, piecesFrom_ascii (by omega), code, List.length_singleton]
  split
  · have first : value / 64 % 32 + 192 - 0xc0 = value / 64 := by omega
    have begins : begin? (value / 64 % 32 + 192) = some ⟨value / 64, 1, 0x80, 0xbf, 1⟩ := by
      rw [begin?, if_neg (by omega), if_pos (by omega), first]
    have bits : value / 64 * 64 + value % 64 = value := by omega
    rw [List.cons_append, List.singleton_append, piecesFrom_lead (by omega) (by omega) begins,
      piecesFrom_last (by omega) (by omega), bits, code, List.length_cons, List.length_singleton]
  split
  · have first : value / 4096 % 16 + 224 - 0xe0 = value / 4096 := by omega
    have begins : ∃ least greatest, begin? (value / 4096 % 16 + 224) = some ⟨value / 4096, 2, least, greatest, 1⟩ ∧
        least ≤ value / 64 % 64 + 0x80 ∧ value / 64 % 64 + 0x80 ≤ greatest := by
      refine ⟨if value / 4096 % 16 + 224 = 0xe0 then 0xa0 else 0x80, if value / 4096 % 16 + 224 = 0xed then 0x9f else 0xbf, ?_, ?_, ?_⟩
      · rw [begin?, if_neg (by omega), if_neg (by omega), if_pos (by omega), first]
      · split <;> omega
      · split <;> omega
    obtain ⟨least, greatest, begins, within⟩ := begins
    have bits : (value / 4096 * 64 + value / 64 % 64) * 64 + value % 64 = value := by omega
    rw [List.cons_append, List.cons_append, List.singleton_append, piecesFrom_lead (by omega) (by omega) begins,
      piecesFrom_more within (by omega), piecesFrom_last (by omega) (by omega), bits, code]
    rfl
  · have first : value / 262144 % 8 + 240 - 0xf0 = value / 262144 := by omega
    have begins : ∃ least greatest, begin? (value / 262144 % 8 + 240) = some ⟨value / 262144, 3, least, greatest, 1⟩ ∧
        least ≤ value / 4096 % 64 + 0x80 ∧ value / 4096 % 64 + 0x80 ≤ greatest := by
      refine ⟨if value / 262144 % 8 + 240 = 0xf0 then 0x90 else 0x80, if value / 262144 % 8 + 240 = 0xf4 then 0x8f else 0xbf, ?_, ?_, ?_⟩
      · rw [begin?, if_neg (by omega), if_neg (by omega), if_neg (by omega), if_pos (by omega), first]
      · split <;> omega
      · split <;> omega
    obtain ⟨least, greatest, begins, within⟩ := begins
    have bits : ((value / 262144 * 64 + value / 4096 % 64) * 64 + value / 64 % 64) * 64 + value % 64 = value := by omega
    rw [List.cons_append, List.cons_append, List.cons_append, List.singleton_append,
      piecesFrom_lead (by omega) (by omega) begins, piecesFrom_more within (by omega), piecesFrom_more (by omega) (by omega),
      piecesFrom_last (by omega) (by omega), bits, code]
    rfl

/-! ## A text -/

theorem pieces_encode_cons (c : Char) (rest : List Char) :
    pieces (encode (c :: rest)) = .char c (String.utf8EncodeChar c).length :: pieces (encode rest) :=
  piecesFrom_utf8EncodeChar c (encode rest)

theorem decode_encode (text : List Char) : decode (encode text) = .ok text := by
  have chars : ∀ position, charsOf position (pieces (encode text)) = .ok text := by
    induction text with
    | nil => exact fun _ => rfl
    | cons c rest ih =>
        intro position
        rw [pieces_encode_cons, charsOf, ih]
        rfl
  rw [decode, chars 0]

theorem decodeLeniently_encode (text : List Char) : decodeLeniently (encode text) = text := by
  induction text with
  | nil => rfl
  | cons c rest ih =>
      rw [decodeLeniently, pieces_encode_cons, List.map_cons]
      exact congrArg (c :: ·) ih

theorem readText_encode {text : List Char} (noReturn : '\r' ∉ text) : Files.readText (encode text) = .ok text := by
  rw [Files.readText, decode_encode]
  exact congrArg Except.ok (unifyLineEnds_eq_self text noReturn)

theorem readTextLeniently_encode {text : List Char} (noReturn : '\r' ∉ text) :
    Files.readTextLeniently (encode text) = text := by
  rw [Files.readTextLeniently, decodeLeniently_encode]
  exact unifyLineEnds_eq_self text noReturn

theorem return_not_mem_unifyLineEnds (text : List Char) : '\r' ∉ unifyLineEnds text := by
  fun_induction unifyLineEnds text with
  | case1 => exact List.not_mem_nil
  | case2 rest ih => simpa using ih
  | case3 rest _ ih => simpa using ih
  | case4 c rest _ notReturn ih =>
      rw [List.mem_cons, not_or]
      exact ⟨fun same => notReturn same.symm, ih⟩

theorem return_not_mem_of_readText {content : Bytes} {text : List Char} (read : Files.readText content = .ok text) :
    '\r' ∉ text := by
  rw [Files.readText] at read
  cases decoded : decode content with
  | error error =>
      rw [decoded] at read
      cases read
  | ok chars =>
      rw [decoded] at read
      exact Except.ok.inj read ▸ return_not_mem_unifyLineEnds chars

end Deadwood.Text
