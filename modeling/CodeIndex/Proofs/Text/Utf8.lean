import CodeIndex.Text.Line
import CodeIndex.Text.Utf8

namespace CodeIndex.Text

theorem splitOn_eq {α : Type} [DecidableEq α] (sep : α) (xs : List α) :
    splitOn sep xs = xs.splitOn sep := by
  induction xs with
  | nil => rfl
  | cons c cs ih =>
    rw [splitOn, List.splitOn_cons_eq_if_modifyHead, ih]
    by_cases h : c = sep
    · rw [if_pos h, if_pos (beq_iff_eq.mpr h)]
    · rw [if_neg h, if_neg (h ∘ beq_iff_eq.mp)]
      cases hpieces : cs.splitOn sep with
      | nil => exact absurd hpieces (List.splitOn_ne_nil _ _)
      | cons piece more => rfl

theorem byteList_from (bytes : ByteArray) (start : Nat) (before : List UInt8) :
    ByteArray.toList.loop bytes start before =
      before.reverse ++ bytes.data.toList.drop start := by
  rw [ByteArray.toList.loop]
  split
  · rename_i h
    have hget : bytes.get! start = bytes.data.toList[start] := getElem!_pos bytes.data start h
    rw [byteList_from bytes (start + 1), List.reverse_cons, List.append_assoc,
      List.singleton_append, hget, ← List.drop_eq_getElem_cons h]
  · rename_i h
    rw [List.drop_eq_nil_of_le (Nat.le_of_not_lt h), List.append_nil]
termination_by bytes.size - start

theorem byteList (bytes : ByteArray) : bytes.toList = bytes.data.toList :=
  byteList_from bytes 0 []

theorem toNat_ofNat (n : Nat) (h : n.isValidChar) : (Char.ofNat n).toNat = n := by
  unfold Char.ofNat
  rw [dif_pos h]
  rfl

section

variable (letter : Char) (h : letter.toNat < 128)
include h

theorem toUInt8_eq_iff (n : Nat) (hn : n < 256) :
    UInt8.ofNat n = letter.toUInt8 ↔ n = letter.toNat := by
  have hletter : letter.toUInt8.toNat = letter.toNat := by
    unfold Char.toUInt8
    rw [UInt32.toNat_toUInt8]
    exact Nat.mod_eq_of_lt (Nat.lt_trans h (by omega))
  rw [← UInt8.toNat_inj, UInt8.toNat_ofNat_of_lt' hn, hletter]

theorem utf8EncodeChar_head (c : Char) :
    (String.utf8EncodeChar c).head? = some letter.toUInt8 ↔ c = letter := by
  have hc : c = letter ↔ c.val.toNat = letter.toNat := by
    rw [← Char.toNat_inj]
    rfl
  -- the first of several bytes is not below `80`
  have hlead (n : Nat) (hlow : 128 ≤ n) (hhigh : n < 256) (hwide : 127 < c.val.toNat) :
      UInt8.ofNat n = letter.toUInt8 ↔ c.val.toNat = letter.toNat := by
    rw [toUInt8_eq_iff letter h n hhigh]
    omega
  rw [hc]
  fun_cases String.utf8EncodeChar c with
  | case1 v hv =>
    rw [List.head?_cons, Option.some_inj]
    exact toUInt8_eq_iff letter h _ (by omega)
  | case2 v hv hv2 =>
    rw [List.head?_cons, Option.some_inj]
    exact hlead _ (by omega) (by omega) (by omega)
  | case3 v hv hv2 hv3 =>
    rw [List.head?_cons, Option.some_inj]
    exact hlead _ (by omega) (by omega) (by omega)
  | case4 v hv hv2 hv3 =>
    rw [List.head?_cons, Option.some_inj]
    exact hlead _ (by omega) (by omega) (by omega)

theorem ofNat_wide_ne (hne : letter ≠ '\x00') (n : Nat) (hn : 128 ≤ n) :
    Char.ofNat n ≠ letter := by
  rintro rfl
  by_cases hv : n.isValidChar
  · rw [toNat_ofNat n hv] at h
    omega
  · exact hne (dif_neg hv)

end

/-- What a lead byte from `80` on and the range for its second byte leave for the character: it is
not one that a shorter form would spell. -/
theorem leadRange?_wide (b : UInt8) (hb : ¬b < 0x80) (width : Nat) (low high : UInt8)
    (h : leadRange? b = some (width, low, high)) : high.toNat ≤ 0xBF ∧
      (width = 2 ∧ 2 ≤ b.toNat % 32 ∨ width = 3 ∧ (0 < b.toNat % 16 ∨ low.toNat = 0xA0) ∨
        width = 4 ∧ (0 < b.toNat % 8 ∨ low.toNat = 0x90)) := by
  unfold leadRange? at h
  rw [if_neg hb] at h
  simp only [Bool.and_eq_true, decide_eq_true_eq, UInt8.le_iff_toNat_le, UInt8.reduceToNat,
    beq_iff_eq, ← UInt8.toNat_inj] at h
  split at h
  · cases h
    exact ⟨by decide, .inl ⟨rfl, by omega⟩⟩
  split at h
  · cases h
    exact ⟨by decide, .inr (.inl ⟨rfl, .inr rfl⟩)⟩
  split at h
  · cases h
    exact ⟨by decide, .inr (.inl ⟨rfl, .inl (by omega)⟩)⟩
  split at h
  · cases h
    exact ⟨by decide, .inr (.inl ⟨rfl, .inl (by omega)⟩)⟩
  split at h
  · cases h
    exact ⟨by decide, .inr (.inr ⟨rfl, .inr rfl⟩)⟩
  split at h
  · cases h
    exact ⟨by decide, .inr (.inr ⟨rfl, .inl (by omega)⟩)⟩
  split at h
  · cases h
    exact ⟨by decide, .inr (.inr ⟨rfl, .inl (by omega)⟩)⟩
  · cases h

theorem firstSymbol_wide (b : UInt8) (rest : List UInt8) (hb : ¬b < 0x80) (c : Char)
    (h : (firstSymbol b rest).1 = some c) : ∃ n, 128 ≤ n ∧ c = Char.ofNat n := by
  unfold firstSymbol at h
  split at h
  · cases h
  rename_i width low high hlead
  -- the lead byte and the range of the second byte keep short forms out
  obtain ⟨hhigh, hwide⟩ := leadRange?_wide b hb width low high hlead
  rw [if_neg (by omega)] at h
  split at h
  · cases h
  rename_i b2 rest2
  split at h
  · cases h
  rename_i hrange
  have hsecond : low.toNat ≤ b2.toNat ∧ b2.toNat ≤ high.toNat := by
    simp only [Bool.not_eq_true, Bool.not_eq_false', Bool.and_eq_true, decide_eq_true_eq] at hrange
    exact hrange
  split at h
  · cases h
    exact ⟨_, by unfold tailBits; omega, rfl⟩
  split at h
  · cases h
  split at h
  · cases h
  split at h
  · cases h
    exact ⟨_, by unfold tailBits; omega, rfl⟩
  split at h
  · cases h
  split at h
  · cases h
  · cases h
    exact ⟨_, by unfold tailBits; omega, rfl⟩

theorem firstSymbol_letter (b : UInt8) (rest : List UInt8) (letter : Char)
    (h : letter.toNat < 128) (hne : letter ≠ '\x00') :
    (firstSymbol b rest).1.getD '\uFFFD' = letter ↔ b = letter.toUInt8 := by
  by_cases hb : b < 0x80
  · have hlead : leadRange? b = some (1, 0, 0) := if_pos hb
    have hnat : b.toNat < 128 := hb
    have hvalid : b.toNat.isValidChar := .inl (by omega)
    unfold firstSymbol
    rw [hlead]
    dsimp only
    rw [if_pos rfl, Option.getD_some, ← Char.toNat_inj, toNat_ofNat _ hvalid,
      ← toUInt8_eq_iff letter h b.toNat (by omega), UInt8.ofNat_toNat]
  · have hletter : b ≠ letter.toUInt8 := by
      intro heq
      rw [← UInt8.ofNat_toNat (x := b), toUInt8_eq_iff letter h _ b.toNat_lt] at heq
      exact hb (show b.toNat < 128 from heq ▸ h)
    refine iff_of_false ?_ hletter
    cases hsymbol : (firstSymbol b rest).1 with
    | none =>
      rintro rfl
      exact absurd h (by decide)
    | some c =>
      obtain ⟨n, hn, rfl⟩ := firstSymbol_wide b rest hb c hsymbol
      exact ofNat_wide_ne letter h hne n hn

theorem zero_mem_utf8EncodeChar (c : Char) (h : 0 ∈ String.utf8EncodeChar c) : c = '\x00' := by
  -- the bytes of a character that takes several are not below `80`
  have hbyte (n : Nat) (hlow : 0 < n) (hhigh : n < 256) : (0 : UInt8) ≠ UInt8.ofNat n := by
    rw [ne_eq, ← UInt8.toNat_inj, UInt8.toNat_ofNat_of_lt' hhigh]
    exact Nat.ne_of_lt hlow
  revert h
  fun_cases String.utf8EncodeChar c with
  | case1 v hv =>
    intro h
    have hzero : v = 0 := Nat.eq_zero_of_not_pos fun hpos =>
      hbyte v hpos (by omega) (List.mem_singleton.mp h)
    exact Char.toNat_inj.mp hzero
  | case2 v hv hv2 =>
    intro h
    simp only [List.mem_cons, List.not_mem_nil, or_false] at h
    rcases h with h | h <;> exact absurd h (hbyte _ (by omega) (by omega))
  | case3 v hv hv2 hv3 =>
    intro h
    simp only [List.mem_cons, List.not_mem_nil, or_false] at h
    rcases h with h | h | h <;> exact absurd h (hbyte _ (by omega) (by omega))
  | case4 v hv hv2 hv3 =>
    intro h
    simp only [List.mem_cons, List.not_mem_nil, or_false] at h
    rcases h with h | h | h | h <;> exact absurd h (hbyte _ (by omega) (by omega))

theorem toUTF8_list (text : String) :
    text.toUTF8.data.toList = text.toList.flatMap String.utf8EncodeChar := by
  have hlist := congrArg (·.data.toList) (String.utf8Encode_toList (b := text))
  unfold List.utf8Encode at hlist
  rw [List.data_toByteArray] at hlist
  exact hlist.symm

theorem zero_notMem_toUTF8 (text : String) (h : '\x00' ∉ text.toList) :
    0 ∉ text.toUTF8.data.toList := by
  rw [toUTF8_list, List.mem_flatMap]
  rintro ⟨c, hc, hzero⟩
  exact h (zero_mem_utf8EncodeChar c hzero ▸ hc)

theorem nul_notMem_toString (n : Nat) : '\x00' ∉ (toString n).toList := by
  rw [Nat.toString_eq_repr, Nat.toList_repr]
  intro hnul
  have hdigit := Nat.isDigit_of_mem_toDigits (by decide) (by decide) hnul
  exact absurd hdigit (by decide)

theorem toUTF8_ne_nil (text : String) (h : text ≠ "") : text.toUTF8.data.toList ≠ [] := by
  rw [toUTF8_list, ne_eq, List.flatMap_eq_nil_iff]
  intro hnil
  refine h (String.toList_eq_nil_iff.mp (List.eq_nil_iff_forall_not_mem.mpr fun c hc => ?_))
  exact String.utf8EncodeChar_ne_nil (hnil c hc)

theorem splitOn_ended {α : Type} [DecidableEq α] (sep : α) (tokens : List (List α))
    (h : ∀ token ∈ tokens, sep ∉ token) :
    (tokens.flatMap (· ++ [sep])).splitOn sep = tokens ++ [[]] := by
  induction tokens with
  | nil => rfl
  | cons token tokens ih =>
    obtain ⟨htoken, htokens⟩ := List.forall_mem_cons.mp h
    rw [List.flatMap_cons, List.append_assoc, List.singleton_append,
      List.splitOn_append_cons_self_of_not_mem htoken, ih htokens, List.cons_append]

/-- The text that a token of bytes is read as. -/
def read (token : List UInt8) : String := lossy ⟨token.toArray⟩

theorem read_toUTF8 (text : String) : read text.toUTF8.data.toList = text := lossy_toUTF8 text

theorem toUTF8_injective {a b : String} (h : a.toUTF8.data.toList = b.toUTF8.data.toList) :
    a = b := by
  calc
    a = read a.toUTF8.data.toList := (read_toUTF8 a).symm
    _ = read b.toUTF8.data.toList := by rw [h]
    _ = b := read_toUTF8 b

/-- A text starts with a letter of ASCII if and only if its bytes do. -/
theorem read_head (token : List UInt8) (letter : Char) (h : letter.toNat < 128)
    (hne : letter ≠ '\x00') :
    (read token).toList.head? = some letter ↔ token.head? = some letter.toUInt8 := by
  unfold read lossy
  cases hvalid : String.fromUTF8? ⟨token.toArray⟩ with
  | some text =>
    -- well-formed bytes are the text, and its first character tells the first byte
    have htext : text.toByteArray = ⟨token.toArray⟩ := by
      unfold String.fromUTF8? at hvalid
      split at hvalid
      · cases hvalid
        rfl
      · cases hvalid
    have hbytes : text.toList.flatMap String.utf8EncodeChar = token :=
      (toUTF8_list text).symm.trans (congrArg (·.data.toList) htext)
    rw [← hbytes]
    cases text.toList with
    | nil => exact iff_of_false (Option.some_ne_none _).symm (Option.some_ne_none _).symm
    | cons c cs =>
      rw [List.flatMap_cons, List.head?_append, Option.or_of_isSome, utf8EncodeChar_head letter h c,
        List.head?_cons, Option.some_inj]
      rw [List.isSome_head?]
      exact String.utf8EncodeChar_ne_nil
  | none =>
    -- others are shown symbol by symbol, and a symbol that is replaced starts with no such byte
    dsimp only
    rw [String.toList_ofList, byteList]
    cases token with
    | nil =>
      rw [scanSymbols]
      exact iff_of_false (Option.some_ne_none _).symm (Option.some_ne_none _).symm
    | cons b rest =>
      rw [scanSymbols, List.map_cons, List.head?_cons, Option.some_inj, List.head?_cons,
        Option.some_inj, firstSymbol_letter b rest letter h hne]

end CodeIndex.Text
