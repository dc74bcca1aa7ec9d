import NodeLending.Text.Utf8

/-!
# Texts are read back from their bytes

Each character is written with one to four bytes. The first one says how many follow and, with the
least and the greatest value of the second one, that no character is written with more bytes than it
needs. So the bytes of a text fall into its characters again.

## Main results

* `Text.pieces_utf8EncodeChar`: the bytes of a character make one piece.
* `Text.pieces_utf8`, `Text.ofUtf8_utf8`, `Text.ofUtf8?_utf8`: texts are read back.
* `Text.utf8ByteSize_of_ascii`: how many bytes an ASCII text has.
-/

namespace NodeLending.Text

variable {bs : List UInt8} {value left least greatest n v : Nat}

/-! ### Bytes -/

theorem toNat_ofNat {n : Nat} (h : n < 256) : (UInt8.ofNat n).toNat = n :=
  UInt8.toNat_ofNat_of_lt' h

/-- A byte that starts a longer character. -/
theorem pieces_cons_start {p : Pending} (hn : n < 256) (h : startByte n = some (.inr p)) :
    pieces (UInt8.ofNat n :: bs) = piecesFrom (some p) bs := by
  rw [pieces, piecesFrom, readByte, readStart, toNat_ofNat hn, h]
  rfl

/-- A byte that goes on with a character. -/
theorem piecesFrom_cons_follow (hleast : least ≤ n % 0x40 + 0x80)
    (hgreatest : n % 0x40 + 0x80 ≤ greatest) (hleft : 1 < left) :
    piecesFrom (some ⟨value, left, least, greatest⟩) (UInt8.ofNat (n % 0x40 + 0x80) :: bs) =
      piecesFrom (some ⟨value * 64 + n % 0x40, left - 1, 0x80, 0xBF⟩) bs := by
  rw [piecesFrom, readByte, toNat_ofNat (by omega), if_pos ⟨hleast, hgreatest⟩,
    if_neg (Nat.not_le_of_lt hleft), Nat.add_sub_cancel]
  rfl

/-- A byte that completes a character. -/
theorem piecesFrom_cons_last (hleast : least ≤ n % 0x40 + 0x80)
    (hgreatest : n % 0x40 + 0x80 ≤ greatest) :
    piecesFrom (some ⟨value, 1, least, greatest⟩) (UInt8.ofNat (n % 0x40 + 0x80) :: bs) =
      some (Char.ofNat (value * 64 + n % 0x40)) :: pieces bs := by
  rw [piecesFrom, readByte, toNat_ofNat (by omega), if_pos ⟨hleast, hgreatest⟩,
    if_pos (Nat.le_refl 1), Nat.add_sub_cancel]
  rfl

/-! ### First bytes -/

/-- The first of two bytes. -/
theorem startByte_two (hlow : 0x80 ≤ v) (hhigh : v < 0x800) :
    startByte (v / 64 % 0x20 + 0xC0) = some (.inr ⟨v / 64, 1, 0x80, 0xBF⟩) := by
  have hvalue : v / 64 % 0x20 + 0xC0 - 0xC0 = v / 64 := by omega
  rw [startByte, if_neg (by omega), if_neg (by omega), if_pos (by omega), hvalue]

/-- The first of three bytes, which says how far the second one goes. -/
theorem exists_startByte_three (hlow : 0x800 ≤ v) (hhigh : v < 0x10000)
    (hvalid : v < 0xD800 ∨ 0xDFFF < v) : ∃ least greatest,
      startByte (v / 4096 % 0x10 + 0xE0) = some (.inr ⟨v / 4096, 2, least, greatest⟩) ∧
      least ≤ v / 64 % 0x40 + 0x80 ∧ v / 64 % 0x40 + 0x80 ≤ greatest := by
  have hvalue : v / 4096 % 0x10 + 0xE0 - 0xE0 = v / 4096 := by omega
  rw [startByte, if_neg (by omega), if_neg (by omega), if_neg (by omega)]
  by_cases hfirst : v / 4096 = 0
  · rw [if_pos (by omega), hfirst]
    exact ⟨_, _, rfl, by omega, by omega⟩
  by_cases hsurrogates : v / 4096 = 0xD
  · rw [if_neg (by omega), if_pos (by omega), hsurrogates]
    exact ⟨_, _, rfl, by omega, by omega⟩
  · rw [if_neg (by omega), if_neg (by omega), if_pos (by omega), hvalue]
    exact ⟨_, _, rfl, by omega, by omega⟩

/-- The first of four bytes, which says how far the second one goes. -/
theorem exists_startByte_four (hlow : 0x10000 ≤ v) (hhigh : v < 0x110000) :
    ∃ least greatest,
      startByte (v / 262144 % 0x08 + 0xF0) = some (.inr ⟨v / 262144, 3, least, greatest⟩) ∧
      least ≤ v / 4096 % 0x40 + 0x80 ∧ v / 4096 % 0x40 + 0x80 ≤ greatest := by
  have hvalue : v / 262144 % 0x08 + 0xF0 - 0xF0 = v / 262144 := by omega
  rw [startByte, if_neg (by omega), if_neg (by omega), if_neg (by omega), if_neg (by omega),
    if_neg (by omega), if_neg (by omega)]
  by_cases hfirst : v / 262144 = 0
  · rw [if_pos (by omega), hfirst]
    exact ⟨_, _, rfl, by omega, by omega⟩
  by_cases hlast : v / 262144 = 4
  · rw [if_neg (by omega), if_neg (by omega), if_pos (by omega), hlast]
    exact ⟨_, _, rfl, by omega, by omega⟩
  · rw [if_neg (by omega), if_pos (by omega), hvalue]
    exact ⟨_, _, rfl, by omega, by omega⟩

/-! ### Characters -/

/-- The bytes of a character make one piece. -/
theorem pieces_utf8EncodeChar (c : Char) (bs : List UInt8) :
    pieces (String.utf8EncodeChar c ++ bs) = some c :: pieces bs := by
  have hvalid : c.val.toNat < 0xD800 ∨ 0xDFFF < c.val.toNat ∧ c.val.toNat < 0x110000 := c.valid
  have hc : Char.ofNat c.val.toNat = c := Char.ofNat_toNat c
  rw [String.utf8EncodeChar]
  generalize c.val.toNat = v at hvalid hc ⊢
  -- One, two, three or four bytes.
  split
  · rw [List.singleton_append, pieces, piecesFrom, readByte, readStart, toNat_ofNat (by omega),
      startByte, if_pos (by omega), hc]
    rfl
  split
  · have hstart := startByte_two (v := v) (by omega) (by omega)
    have hvalue : v / 64 * 64 + v % 0x40 = v := by omega
    simp only [List.cons_append, List.nil_append]
    rw [pieces_cons_start (by omega) hstart, piecesFrom_cons_last (by omega) (by omega), hvalue, hc]
  split
  · obtain ⟨least, greatest, hstart, hleast, hgreatest⟩ :=
      exists_startByte_three (v := v) (by omega) (by omega) (by omega)
    have hvalue : (v / 4096 * 64 + v / 64 % 0x40) * 64 + v % 0x40 = v := by omega
    simp only [List.cons_append, List.nil_append]
    rw [pieces_cons_start (by omega) hstart, piecesFrom_cons_follow hleast hgreatest (by omega),
      piecesFrom_cons_last (by omega) (by omega), hvalue, hc]
  · obtain ⟨least, greatest, hstart, hleast, hgreatest⟩ :=
      exists_startByte_four (v := v) (by omega) (by omega)
    have hvalue : ((v / 262144 * 64 + v / 4096 % 0x40) * 64 + v / 64 % 0x40) * 64 + v % 0x40 = v := by
      omega
    simp only [List.cons_append, List.nil_append]
    rw [pieces_cons_start (by omega) hstart, piecesFrom_cons_follow hleast hgreatest (by omega),
      piecesFrom_cons_follow (by omega) (by omega) (by omega),
      piecesFrom_cons_last (by omega) (by omega), hvalue, hc]

/-! ### Texts -/

/-- The bytes of a text fall into its characters. -/
theorem pieces_utf8 (s : String) : pieces (utf8 s) = s.toList.map some := by
  have hchars : ∀ cs : List Char, pieces (cs.flatMap String.utf8EncodeChar) = cs.map some := by
    intro cs
    induction cs with
    | nil => rfl
    | cons c cs ih => rw [List.flatMap_cons, pieces_utf8EncodeChar, ih, List.map_cons]
  exact hchars s.toList

theorem ofUtf8_utf8 (s : String) : ofUtf8 (utf8 s) = s := by
  rw [ofUtf8, pieces_utf8, List.map_map]
  exact (congrArg String.ofList (List.map_id s.toList)).trans String.ofList_toList

/-- Texts are read back from their bytes. -/
theorem ofUtf8?_utf8 (s : String) : ofUtf8? (utf8 s) = some s := by
  simp only [ofUtf8?, ofUtf8_utf8, if_true]

/-! ### ASCII -/

theorem utf8EncodeChar_of_ascii {c : Char} (h : c.toNat < 0x80) :
    String.utf8EncodeChar c = [UInt8.ofNat c.toNat] := by
  have hsize : c.utf8Size = 1 := by
    rw [Char.utf8Size_eq_one_iff, UInt32.le_iff_toNat_le]
    exact Nat.le_of_lt_succ h
  rw [String.utf8EncodeChar_eq_singleton hsize]
  rfl

/-- Each character of an ASCII text is one byte. -/
theorem utf8ByteSize_of_ascii {s : String} (h : ∀ c ∈ s.toList, c.toNat < 0x80) :
    s.utf8ByteSize = s.toList.length := by
  have hone : s.toList.map (fun c => (String.utf8EncodeChar c).length) = s.toList.map fun _ => 1 :=
    List.map_congr_left fun c hc => by rw [utf8EncodeChar_of_ascii (h c hc)]; rfl
  rw [← String.size_toByteArray, toByteArray_eq, List.size_toByteArray, utf8, List.length_flatMap,
    hone, List.map_const', List.sum_replicate_nat, Nat.mul_one]

end NodeLending.Text
