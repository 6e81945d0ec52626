import CodeIndex.Json.Printer
import CodeIndex.Json.Reader
import Mathlib.Data.List.Forall2

namespace CodeIndex

namespace Text

theorem symbols_toUTF8 (s : String) : symbols s.toUTF8 = s.toList.map some := by
  have h : String.fromUTF8? s.toUTF8 = some s := by
    unfold String.fromUTF8?
    exact dif_pos s.isValidUTF8
  unfold symbols
  rw [h]

end Text

namespace Json

def symbolsOf (cs : List Char) : Symbols := cs.map some

theorem symbolsOf_append (cs ds : List Char) : symbolsOf (cs ++ ds) = symbolsOf cs ++ symbolsOf ds :=
  List.map_append

/-- What may follow a number: the end, a comma or a line feed. -/
def Stops (rest : Symbols) : Prop :=
  rest = [] ∨ ∃ more, rest = some ',' :: more ∨ rest = some '\n' :: more

/-! ### Numbers -/

theorem digitRun_digits (cs : List Char) (rest : Symbols)
    (hcs : ∀ c ∈ cs, '0' ≤ c ∧ c ≤ '9') (hrest : Stops rest) :
    digitRun (symbolsOf cs ++ rest) = (cs.map fun c => c.toNat - 48, rest) := by
  induction cs with
  | nil =>
    rcases hrest with rfl | ⟨more, rfl | rfl⟩ <;> simp [symbolsOf, digitRun]
  | cons c cs ih =>
    have hc := hcs c List.mem_cons_self
    have hrun := ih fun d hd => hcs d (List.mem_cons_of_mem _ hd)
    show digitRun (some c :: (symbolsOf cs ++ rest)) = _
    rw [digitRun, if_pos hc, hrun]
    rfl

theorem toDigits_decimal (n : Nat) : ∀ c ∈ Nat.toDigits 10 n, '0' ≤ c ∧ c ≤ '9' := by
  intro c hc
  have h := Nat.isDigit_of_mem_toDigits (by omega) (by omega) hc
  simpa [Char.isDigit, Char.le_def, ge_iff_le] using h

theorem digitsValue_toDigits (n : Nat) :
    digitsValue ((Nat.toDigits 10 n).map fun c => c.toNat - 48) = n := by
  have h := Nat.ofDigitChars_toDigits (b := 10) (n := n) (by omega) (by omega)
  rw [Nat.ofDigitChars_eq_foldl] at h
  unfold digitsValue
  rw [List.foldl_map]
  have hfun : (fun n (c : Char) => n * 10 + (c.toNat - 48)) =
      fun sofar (c : Char) => 10 * sofar + (c.toNat - '0'.toNat) := by
    funext a c
    rw [Nat.mul_comm]
    rfl
  rw [hfun]
  exact h

theorem toDigits_leading (n : Nat) (c : Char) (d : Char) (more : List Char)
    (h : Nat.toDigits 10 n = c :: d :: more) : c.toNat - 48 ≠ 0 := by
  induction n using Nat.strongRecOn generalizing c d more with
  | ind n ih =>
    by_cases hlt : n < 10
    · rw [Nat.toDigits_of_lt_base hlt] at h
      cases h
    · rw [Nat.toDigits_of_base_le (by omega) (by omega)] at h
      have hquot : n / 10 < n := by omega
      cases hq : Nat.toDigits 10 (n / 10) with
      | nil => exact absurd hq Nat.toDigits_ne_nil
      | cons e es =>
        rw [hq, List.cons_append] at h
        injection h with hec hes
        cases es with
        | nil =>
          -- the quotient has one digit, which is not zero as there are two in all
          have hsmall : n / 10 < 10 := by
            rcases Nat.lt_or_ge (n / 10) 10 with hsmall | hbig
            · exact hsmall
            · rw [Nat.toDigits_of_base_le (by omega) hbig] at hq
              have hlen := congrArg List.length hq
              simp only [List.length_append, List.length_cons, List.length_nil] at hlen
              have hpos : 0 < (Nat.toDigits 10 (n / 10 / 10)).length := Nat.length_toDigits_pos
              omega
          rw [Nat.toDigits_of_lt_base hsmall] at hq
          injection hq with hdigit _
          rw [← hec, ← hdigit, Nat.toNat_digitChar_sub_48_of_lt_ten hsmall]
          omega
        | cons f fs =>
          rw [← hec]
          exact ih (n / 10) hquot e f fs hq

theorem unsignedNumber_digits (negative : Bool) (n : Nat) (rest : Symbols) (hrest : Stops rest) :
    unsignedNumber? negative (symbolsOf (Nat.toDigits 10 n) ++ rest) =
      some (.integer negative n, rest) := by
  have hfraction : fraction? rest = some (none, rest) := by
    rcases hrest with rfl | ⟨more, rfl | rfl⟩ <;> rfl
  have hexponent : exponent? rest = some (none, rest) := by
    rcases hrest with rfl | ⟨more, rfl | rfl⟩ <;> rfl
  have hvalue := digitsValue_toDigits n
  have hlead := toDigits_leading n
  unfold unsignedNumber?
  rw [digitRun_digits _ rest (toDigits_decimal n) hrest]
  split
  · rename_i heq
    injection heq with hnil _
    exact absurd (List.map_eq_nil_iff.mp hnil) Nat.toDigits_ne_nil
  · rename_i heq
    injection heq with hzero _
    cases hdigits : Nat.toDigits 10 n with
    | nil => exact absurd hdigits Nat.toDigits_ne_nil
    | cons c more =>
      rw [hdigits] at hzero
      cases more with
      | nil =>
        rw [List.map_cons, List.cons_eq_cons] at hzero
        cases hzero.2
      | cons d more =>
        rw [List.map_cons, List.cons_eq_cons] at hzero
        exact absurd hzero.1 (hlead c d more hdigits)
  · rename_i heq
    injection heq with hwhole hrest'
    rw [← hwhole, ← hrest', hfraction]
    simp only [Option.bind_eq_bind, Option.bind_some, hexponent, hvalue]

/-! ### Literals -/

theorem hexValue_hexDigit (n : Nat) (h : n < 16) : Text.hexValue? (Text.hexDigit n) = some n := by
  have hall : ∀ n, n < 16 → Text.hexValue? (Text.hexDigit n) = some n := by decide
  exact hall n h

theorem unit_hexFixed (n : Nat) (h : n < 65536) :
    ∃ a b c d, symbolsOf (Text.hexFixed 4 n) = [a, b, c, d] ∧ unit? a b c d = some n := by
  refine ⟨some (Text.hexDigit (n / 16 / 16 / 16 % 16)), some (Text.hexDigit (n / 16 / 16 % 16)),
    some (Text.hexDigit (n / 16 % 16)), some (Text.hexDigit (n % 16)), rfl, ?_⟩
  simp only [unit?, Option.bind_eq_bind, Option.bind_some,
    hexValue_hexDigit _ (Nat.mod_lt _ (by omega : 0 < 16)), Option.some.injEq]
  omega

theorem pieces_escapeChar (c : Char) (rest : Symbols) :
    ∃ p, (p = .char c ∨ (p = .unit c.toNat ∧ c.toNat < 32)) ∧
      pieces (symbolsOf (escapeChar c) ++ rest) =
        (pieces rest).map fun (ps, more) => (p :: ps, more) := by
  unfold escapeChar
  -- the short escapes come first, then the characters that are written by their number
  split
  · rename_i h
    exact ⟨.char '"', .inl (by rw [h]), by simp [symbolsOf, pieces, shortEscape?]⟩
  split
  · rename_i h
    exact ⟨.char '\\', .inl (by rw [h]), by simp [symbolsOf, pieces, shortEscape?]⟩
  split
  · rename_i h
    exact ⟨.char '\n', .inl (by rw [h]), by simp [symbolsOf, pieces, shortEscape?]⟩
  split
  · rename_i h
    exact ⟨.char '\r', .inl (by rw [h]), by simp [symbolsOf, pieces, shortEscape?]⟩
  split
  · rename_i h
    exact ⟨.char '\t', .inl (by rw [h]), by simp [symbolsOf, pieces, shortEscape?]⟩
  split
  · rename_i h
    refine ⟨.char (Char.ofNat 8), .inl ?_, by simp [symbolsOf, pieces, shortEscape?]⟩
    rw [← h, Char.ofNat_toNat]
  split
  · rename_i h
    refine ⟨.char (Char.ofNat 12), .inl ?_, by simp [symbolsOf, pieces, shortEscape?]⟩
    rw [← h, Char.ofNat_toNat]
  split
  · rename_i h
    obtain ⟨x, y, z, w, heq, hunit⟩ := unit_hexFixed c.toNat (by omega)
    refine ⟨.unit c.toNat, .inr ⟨rfl, h⟩, ?_⟩
    rw [symbolsOf_append, heq]
    simp [symbolsOf, pieces, hunit]
  · -- what is left stands for itself
    rename_i hquote hback _ _ _ _ _ hlow
    refine ⟨.char c, .inl rfl, ?_⟩
    show pieces (some c :: rest) = _
    rw [pieces]
    · rw [if_neg (by simp only [hback, false_or]; exact hlow)]
    · intro h
      exact hquote h
    · intro _ _ _ _ _ _ h
      exact hback h
    · intro _ _ _ h
      exact hback h

/-- Pieces that stand for the characters of a text make up the text. -/
theorem composed_pieces (cs : List Char) (ps : List Piece)
    (h : List.Forall₂ (fun c p => p = .char c ∨ (p = .unit c.toNat ∧ c.toNat < 32)) cs ps) :
    composed ps = some cs := by
  induction h with
  | nil => rfl
  | cons hhead htail ih =>
    rename_i c p cs ps
    rcases hhead with rfl | ⟨rfl, hlow⟩
    · rw [composed, ih]
      rfl
    · -- a low unit is no half of a pair, whatever piece follows it
      have hchar : Char.ofNat c.toNat = c := Char.ofNat_toNat c
      cases ps with
      | nil =>
        rw [composed]
        · rw [if_neg (by omega), ih, hchar]
          rfl
        · intro low rest hcons
          cases hcons
      | cons q ps =>
        cases q with
        | unit low =>
          rw [composed, if_neg (by omega), if_neg (by omega), ih, hchar]
          rfl
        | char d =>
          rw [composed]
          · rw [if_neg (by omega), ih, hchar]
            rfl
          · intro low rest hcons
            cases hcons
        | garbage =>
          rw [composed] at ih
          cases ih

theorem literal_read (s : String) (rest : Symbols) :
    literal? (symbolsOf (s.toList.flatMap escapeChar ++ ['"']) ++ rest) =
      some (some s, rest) := by
  have hpieces (cs : List Char) :
      ∃ ps, List.Forall₂ (fun c p => p = .char c ∨ (p = .unit c.toNat ∧ c.toNat < 32)) cs ps ∧
        pieces (symbolsOf (cs.flatMap escapeChar ++ ['"']) ++ rest) = some (ps, rest) := by
    induction cs with
    | nil => exact ⟨[], .nil, by simp [symbolsOf, pieces]⟩
    | cons c cs ih =>
      obtain ⟨ps, hps, hread⟩ := ih
      obtain ⟨p, hp, hstep⟩ :=
        pieces_escapeChar c (symbolsOf (cs.flatMap escapeChar ++ ['"']) ++ rest)
      refine ⟨p :: ps, .cons hp hps, ?_⟩
      rw [List.flatMap_cons, List.append_assoc, symbolsOf_append, List.append_assoc, hstep, hread]
      rfl
  obtain ⟨ps, hps, hread⟩ := hpieces s.toList
  unfold literal?
  rw [hread]
  simp only [Option.map_some, composed_pieces _ ps hps, String.ofList_toList]

/-! ### Values -/

mutual

/-- Literals have texts, and numbers are whole. -/
def Plain : Json → Prop
  | .null => True
  | .bool _ => True
  | .number (.integer _ _) => True
  | .number (.decimal _ _ _) => False
  | .string s => s.isSome
  | .array items => PlainItems items
  | .object members => PlainMembers members

def PlainItems : List Json → Prop
  | [] => True
  | item :: items => Plain item ∧ PlainItems items

def PlainMembers : List (Option String × Json) → Prop
  | [] => True
  | (name, value) :: members => name.isSome ∧ Plain value ∧ PlainMembers members

end

theorem skipSpaces_newline (depth : Nat) (rest : Symbols) :
    skipSpaces (symbolsOf (newline depth) ++ rest) = skipSpaces rest := by
  have hblank (n : Nat) : skipSpaces (symbolsOf (List.replicate n ' ') ++ rest) =
      skipSpaces rest := by
    induction n with
    | zero => rfl
    | succ n ih =>
      rw [List.replicate_succ]
      show skipSpaces (some ' ' :: (symbolsOf (List.replicate n ' ') ++ rest)) = _
      rw [skipSpaces, List.dropWhile_cons_of_pos (by decide)]
      exact ih
  show skipSpaces (some '\n' :: (symbolsOf (List.replicate (2 * depth) ' ') ++ rest)) = _
  rw [skipSpaces, List.dropWhile_cons_of_pos (by decide)]
  exact hblank (2 * depth)

theorem valueFrom_newline (fuel depth : Nat) (rest : Symbols) :
    valueFrom fuel (symbolsOf (newline depth) ++ rest) = valueFrom fuel rest := by
  cases fuel with
  | zero => rw [valueFrom, valueFrom]
  | succ fuel => rw [valueFrom, valueFrom, skipSpaces_newline]

theorem itemsFrom_newline (fuel depth : Nat) (rest : Symbols) :
    itemsFrom fuel (symbolsOf (newline depth) ++ rest) = itemsFrom fuel rest := by
  cases fuel with
  | zero => rw [itemsFrom, itemsFrom]
  | succ fuel => rw [itemsFrom, itemsFrom, skipSpaces_newline]

theorem memberFrom_newline (fuel depth : Nat) (rest : Symbols) :
    memberFrom fuel (symbolsOf (newline depth) ++ rest) = memberFrom fuel rest := by
  cases fuel with
  | zero => rw [memberFrom, memberFrom]
  | succ fuel => rw [memberFrom, memberFrom, skipSpaces_newline]

theorem membersFrom_newline (fuel depth : Nat) (rest : Symbols) :
    membersFrom fuel (symbolsOf (newline depth) ++ rest) = membersFrom fuel rest := by
  cases fuel with
  | zero => rw [membersFrom, membersFrom]
  | succ fuel => rw [membersFrom, membersFrom, skipSpaces_newline]

theorem keyword_read (word : List Char) (rest : Symbols) :
    keyword word (symbolsOf word ++ rest) = some rest := by
  induction word with
  | nil => rfl
  | cons c word ih =>
    show keyword (c :: word) (some c :: (symbolsOf word ++ rest)) = _
    rw [keyword, if_pos rfl]
    exact ih

theorem skipSpaces_cons (c : Char) (rest : Symbols) (h : isSpace (some c) = false) :
    skipSpaces (some c :: rest) = some c :: rest := by
  rw [skipSpaces, List.dropWhile_cons_of_neg (by simp [h])]

theorem symbol_inj {c d : Char} {cs ds : Symbols} (h : some c :: cs = some d :: ds) : c = d :=
  Option.some.inj (List.cons.inj h).1

theorem isSpace_digit {c : Char} (hc : '0' ≤ c) : isSpace (some c) = false := by
  simp only [isSpace, beq_eq_false_iff_ne, Bool.or_eq_false_iff, ne_eq, Option.some.injEq]
  refine ⟨⟨⟨?_, ?_⟩, ?_⟩, ?_⟩ <;> rintro rfl <;> exact absurd hc (by decide)

theorem toString_toList (n : Nat) : (toString n).toList = Nat.toDigits 10 n := by
  rw [Nat.toString_eq_repr, Nat.toList_repr]

/-- A printed value begins with a character that is no blank and closes nothing. -/
theorem prettyAt_head (depth : Nat) (v : Json) (hv : Plain v) :
    ∃ c cs, prettyAt depth v = c :: cs ∧ isSpace (some c) = false ∧ c ≠ ']' := by
  cases v with
  | null => exact ⟨'n', "ull".toList, by rw [prettyAt]; rfl, by decide, by decide⟩
  | bool b =>
    cases b
    · exact ⟨'f', "alse".toList, by rw [prettyAt]; rfl, by decide, by decide⟩
    · exact ⟨'t', "rue".toList, by rw [prettyAt]; rfl, by decide, by decide⟩
  | number n =>
    cases n with
    | decimal negative mantissa exponent => exact absurd hv (by simp [Plain])
    | integer negative n =>
      cases negative
      · -- a number without a sign begins with its first digit
        cases hdigits : Nat.toDigits 10 n with
        | nil => exact absurd hdigits Nat.toDigits_ne_nil
        | cons c cs =>
          have hc := toDigits_decimal n c (by rw [hdigits]; exact List.mem_cons_self)
          refine ⟨c, cs, ?_, isSpace_digit hc.1, ?_⟩
          · rw [prettyAt, numberText, toString_toList, hdigits]
            rfl
          · rintro rfl
            exact absurd hc.2 (by decide)
      · exact ⟨'-', (toString n).toList, by rw [prettyAt, numberText]; rfl, by decide, by decide⟩
  | string s => exact ⟨'"', _, by rw [prettyAt, literalOf, literal], by decide, by decide⟩
  | array items =>
    cases items with
    | nil => exact ⟨'[', _, by rw [prettyAt], by decide, by decide⟩
    | cons item items => exact ⟨'[', _, by rw [prettyAt], by decide, by decide⟩
  | object members =>
    cases members with
    | nil => exact ⟨'\x7b', _, by rw [prettyAt], by decide, by decide⟩
    | cons member members =>
      obtain ⟨name, value⟩ := member
      exact ⟨'\x7b', _, by rw [prettyAt], by decide, by decide⟩

theorem stops_newline (depth : Nat) (rest : Symbols) : Stops (symbolsOf (newline depth) ++ rest) :=
  .inr ⟨_, .inr rfl⟩

theorem stops_items (depth depth' : Nat) (items : List Json) (rest : Symbols) :
    Stops (symbolsOf (prettyItems depth items) ++ (symbolsOf (newline depth') ++ rest)) := by
  cases items with
  | nil =>
    rw [prettyItems]
    exact stops_newline depth' rest
  | cons item items =>
    rw [prettyItems]
    exact .inr ⟨_, .inl rfl⟩

theorem stops_members (depth depth' : Nat) (members : List (Option String × Json))
    (rest : Symbols) :
    Stops (symbolsOf (prettyMembers depth members) ++ (symbolsOf (newline depth') ++ rest)) := by
  cases members with
  | nil =>
    rw [prettyMembers]
    exact stops_newline depth' rest
  | cons member members =>
    obtain ⟨name, value⟩ := member
    rw [prettyMembers]
    exact .inr ⟨_, .inl rfl⟩

theorem newline_length (depth : Nat) : (newline depth).length = 2 * depth + 1 := by
  simp [newline]

theorem memberFrom_name (fuel : Nat) (cs : Symbols) : memberFrom (fuel + 1) (some '"' :: cs) =
    (literal? cs).bind fun x =>
      match skipSpaces x.2 with
      | some ':' :: rest => (valueFrom fuel rest).bind fun y => some ((x.1, y.1), y.2)
      | _ => none := by
  rw [memberFrom]
  rfl

theorem memberFrom_read (depth fuel : Nat) (name : String) (value : Json) (rest : Symbols)
    (hvalue : valueFrom fuel (symbolsOf (prettyAt depth value) ++ rest) = some (value, rest)) :
    memberFrom (fuel + 1) (symbolsOf (literalOf (some name)) ++
      (symbolsOf [':', ' '] ++ (symbolsOf (prettyAt depth value) ++ rest))) =
      some ((some name, value), rest) := by
  have hblank (cs : Symbols) : valueFrom fuel (some ' ' :: cs) = valueFrom fuel cs := by
    cases fuel with
    | zero => rw [valueFrom, valueFrom]
    | succ fuel =>
      rw [valueFrom, valueFrom]
      rfl
  show memberFrom (fuel + 1) (some '"' :: (symbolsOf (name.toList.flatMap escapeChar ++ ['"']) ++
    (symbolsOf [':', ' '] ++ (symbolsOf (prettyAt depth value) ++ rest)))) = _
  rw [memberFrom_name]
  rw [literal_read, Option.bind_some]
  show (valueFrom fuel (some ' ' :: (symbolsOf (prettyAt depth value) ++ rest))).bind _ = _
  rw [hblank, hvalue]
  rfl

theorem number_front (c : Char) (cs : Symbols) (hc : '0' ≤ c ∧ c ≤ '9') :
    number? (some c :: cs) = unsignedNumber? false (some c :: cs) := by
  unfold number?
  split
  · rename_i heq
    rw [symbol_inj heq] at hc
    exact absurd hc.1 (by decide)
  · rfl

theorem valueFrom_digit (fuel : Nat) (c : Char) (cs : Symbols) (hc : '0' ≤ c ∧ c ≤ '9') :
    valueFrom (fuel + 1) (some c :: cs) =
      (number? (some c :: cs)).map fun (n, rest) => (.number n, rest) := by
  have hnot (d : Char) (more : Symbols) (heq : some c :: cs = some d :: more) : d = c :=
    (symbol_inj heq).symm
  rw [valueFrom, skipSpaces_cons c cs (isSpace_digit hc.1)]
  -- no other form begins with a digit
  split
  · rename_i heq
    cases heq
  · rename_i heq
    exact absurd (hnot _ _ heq ▸ hc).2 (by decide)
  · rename_i heq
    exact absurd (hnot _ _ heq ▸ hc).2 (by decide)
  · rename_i heq
    exact absurd (hnot _ _ heq ▸ hc).2 (by decide)
  · rename_i heq
    exact absurd (hnot _ _ heq ▸ hc).1 (by decide)
  · rename_i heq
    exact absurd (hnot _ _ heq ▸ hc).2 (by decide)
  · rename_i heq
    exact absurd (hnot _ _ heq ▸ hc).2 (by decide)
  · rfl

theorem valueFrom_digits (fuel n : Nat) (rest : Symbols) (hrest : Stops rest) :
    valueFrom (fuel + 1) (symbolsOf (Nat.toDigits 10 n) ++ rest) =
      some (.number (.integer false n), rest) := by
  have hread := unsignedNumber_digits false n rest hrest
  have hall := toDigits_decimal n
  cases hdigits : Nat.toDigits 10 n with
  | nil => exact absurd hdigits Nat.toDigits_ne_nil
  | cons d ds =>
    rw [hdigits] at hread hall
    have hd := hall d List.mem_cons_self
    show valueFrom (fuel + 1) (some d :: (symbolsOf ds ++ rest)) = _
    rw [valueFrom_digit fuel d _ hd, number_front d _ hd]
    show Option.map _ (unsignedNumber? false (symbolsOf (d :: ds) ++ rest)) = _
    rw [hread]
    rfl

theorem valueFrom_array (fuel : Nat) (cs : Symbols) : valueFrom (fuel + 1) (some '[' :: cs) =
    match skipSpaces cs with
    | some ']' :: rest => some (array [], rest)
    | rest => (valueFrom fuel rest).bind fun x =>
      (itemsFrom fuel x.2).bind fun y => some (array (x.1 :: y.1), y.2) := by
  rw [valueFrom, skipSpaces_cons _ _ (by decide)]
  rfl

theorem valueFrom_object (fuel : Nat) (cs : Symbols) : valueFrom (fuel + 1) (some '\x7b' :: cs) =
    match skipSpaces cs with
    | some '\x7d' :: rest => some (object [], rest)
    | rest => (memberFrom fuel rest).bind fun x =>
      (membersFrom fuel x.2).bind fun y => some (object (x.1 :: y.1), y.2) := by
  rw [valueFrom, skipSpaces_cons _ _ (by decide)]
  rfl

/-- What the reader makes of an opening bracket before an item. -/
theorem valueFrom_bracket (fuel : Nat) (cs front rest rest' : Symbols) (item : Json)
    (items : List Json) (hcs : skipSpaces cs = front)
    (hfront : ∀ more, front ≠ some ']' :: more) (hitem : valueFrom fuel front = some (item, rest))
    (hitems : itemsFrom fuel rest = some (items, rest')) :
    valueFrom (fuel + 1) (some '[' :: cs) = some (.array (item :: items), rest') := by
  rw [valueFrom_array, hcs]
  split
  · rename_i more
    exact absurd rfl (hfront more)
  · rw [hitem, Option.bind_some, hitems, Option.bind_some]

/-- What the reader makes of an opening brace before a member. -/
theorem valueFrom_brace (fuel : Nat) (cs front rest rest' : Symbols)
    (member : Option String × Json) (members : List (Option String × Json))
    (hcs : skipSpaces cs = front) (hfront : ∀ more, front ≠ some '\x7d' :: more)
    (hmember : memberFrom fuel front = some (member, rest))
    (hmembers : membersFrom fuel rest = some (members, rest')) :
    valueFrom (fuel + 1) (some '\x7b' :: cs) = some (.object (member :: members), rest') := by
  rw [valueFrom_object, hcs]
  split
  · rename_i more
    exact absurd rfl (hfront more)
  · rw [hmember, Option.bind_some, hmembers, Option.bind_some]

mutual

theorem valueFrom_read (v : Json) (depth fuel : Nat) (rest : Symbols) (hv : Plain v)
    (hrest : Stops rest) (hfuel : 2 * (prettyAt depth v).length ≤ fuel) :
    valueFrom fuel (symbolsOf (prettyAt depth v) ++ rest) = some (v, rest) := by
  obtain ⟨c, cs, hhead, hspace, _⟩ := prettyAt_head depth v hv
  have hpos : 0 < (prettyAt depth v).length := by
    rw [hhead]
    exact Nat.succ_pos _
  obtain ⟨fuel, rfl⟩ : ∃ n, fuel = n + 1 := ⟨fuel - 1, by omega⟩
  -- nothing printed begins with a blank
  have hskip : skipSpaces (symbolsOf (prettyAt depth v) ++ rest) =
      symbolsOf (prettyAt depth v) ++ rest := by
    rw [hhead]
    exact skipSpaces_cons c _ hspace
  -- by the forms that are printed, which the reader tells apart by their first characters; there
  -- are two units of fuel for each character, one for a value and one for the list that it is in
  match v with
  | .null =>
    rw [valueFrom, hskip, prettyAt]
    show (keyword "ull".toList (symbolsOf "ull".toList ++ rest)).map _ = _
    rw [keyword_read]
    rfl
  | .bool true =>
    rw [valueFrom, hskip, prettyAt]
    show (keyword "rue".toList (symbolsOf "rue".toList ++ rest)).map _ = _
    rw [keyword_read]
    rfl
  | .bool false =>
    rw [valueFrom, hskip, prettyAt]
    show (keyword "alse".toList (symbolsOf "alse".toList ++ rest)).map _ = _
    rw [keyword_read]
    rfl
  | .number (.decimal negative mantissa exponent) => exact absurd hv (by simp [Plain])
  | .number (.integer true n) =>
    rw [valueFrom, hskip, prettyAt, numberText, toString_toList]
    show (number? (some '-' :: (symbolsOf (Nat.toDigits 10 n) ++ rest))).map _ = _
    rw [number?, unsignedNumber_digits true n rest hrest]
    rfl
  | .number (.integer false n) =>
    rw [prettyAt, numberText, toString_toList]
    exact valueFrom_digits fuel n rest hrest
  | .string s =>
    obtain ⟨text, rfl⟩ := Option.isSome_iff_exists.mp hv
    rw [valueFrom, hskip, prettyAt]
    show (literal? (symbolsOf (text.toList.flatMap escapeChar ++ ['"']) ++ rest)).map _ = _
    rw [literal_read]
    rfl
  | .array [] =>
    rw [valueFrom, hskip, prettyAt]
    rfl
  | .array (item :: items) =>
    rw [prettyAt] at hfuel ⊢
    simp only [List.length_cons, List.length_append, newline_length, List.length_nil] at hfuel
    obtain ⟨hitem, hitems⟩ := hv
    obtain ⟨d, ds, hd, hdspace, hdclose⟩ := prettyAt_head (depth + 1) item hitem
    have hread := valueFrom_read item (depth + 1) fuel
      (symbolsOf (prettyItems (depth + 1) items) ++ (symbolsOf (newline depth) ++ some ']' :: rest))
      hitem (stops_items _ _ _ _) (by omega)
    have hmore := itemsFrom_read items (depth + 1) depth fuel rest hitems (by omega)
    show valueFrom (fuel + 1) (some '[' :: (symbolsOf (newline (depth + 1) ++
      prettyAt (depth + 1) item ++ prettyItems (depth + 1) items ++ newline depth ++ [']']) ++
        rest)) = _
    simp only [symbolsOf_append, List.append_assoc]
    refine valueFrom_bracket fuel _ _ _ _ item items ?_ ?_ hread hmore
    · rw [skipSpaces_newline, hd]
      exact skipSpaces_cons d _ hdspace
    · intro more heq
      rw [hd] at heq
      exact hdclose (symbol_inj heq)
  | .object [] =>
    rw [valueFrom, hskip, prettyAt]
    rfl
  | .object ((name, value) :: members) =>
    obtain ⟨hname, hvalue, hmembers⟩ := hv
    obtain ⟨text, rfl⟩ := Option.isSome_iff_exists.mp hname
    rw [prettyAt] at hfuel ⊢
    simp only [List.length_cons, List.length_append, newline_length, List.length_nil] at hfuel
    obtain ⟨fuel, rfl⟩ : ∃ n, fuel = n + 1 := ⟨fuel - 1, by omega⟩
    have hread := memberFrom_read (depth + 1) fuel text value
      (symbolsOf (prettyMembers (depth + 1) members) ++
        (symbolsOf (newline depth) ++ some '\x7d' :: rest))
      (valueFrom_read value (depth + 1) fuel _ hvalue (stops_members _ _ _ _) (by omega))
    have hmore := membersFrom_read members (depth + 1) depth (fuel + 1) rest hmembers (by omega)
    show valueFrom (fuel + 1 + 1) (some '\x7b' :: (symbolsOf (newline (depth + 1) ++
      literalOf (some text) ++ [':', ' '] ++ prettyAt (depth + 1) value ++
        prettyMembers (depth + 1) members ++ newline depth ++ ['\x7d']) ++ rest)) = _
    simp only [symbolsOf_append, List.append_assoc]
    refine valueFrom_brace (fuel + 1) _ _ _ _ (some text, value) members ?_ ?_ hread hmore
    · rw [skipSpaces_newline]
      exact skipSpaces_cons '"' _ (by decide)
    · intro more heq
      exact absurd (symbol_inj heq) (by decide)

/-- Printed items are read as they were, up to the closing bracket. -/
theorem itemsFrom_read (items : List Json) (depth depth' fuel : Nat) (rest : Symbols)
    (hv : PlainItems items) (hfuel : 2 * (prettyItems depth items).length + 1 ≤ fuel) :
    itemsFrom fuel (symbolsOf (prettyItems depth items) ++
      (symbolsOf (newline depth') ++ some ']' :: rest)) = some (items, rest) := by
  obtain ⟨fuel, rfl⟩ : ∃ n, fuel = n + 1 := ⟨fuel - 1, by omega⟩
  match items with
  | [] =>
    rw [prettyItems]
    show itemsFrom (fuel + 1) (symbolsOf (newline depth') ++ some ']' :: rest) = _
    rw [itemsFrom_newline, itemsFrom]
    rfl
  | item :: items =>
    rw [prettyItems] at hfuel ⊢
    simp only [List.length_cons, List.length_append, newline_length] at hfuel
    obtain ⟨hitem, hitems⟩ := hv
    have hread := valueFrom_read item depth fuel
      (symbolsOf (prettyItems depth items) ++ (symbolsOf (newline depth') ++ some ']' :: rest))
      hitem (stops_items _ _ _ _) (by omega)
    have hmore := itemsFrom_read items depth depth' fuel rest hitems (by omega)
    show itemsFrom (fuel + 1) (some ',' :: (symbolsOf (newline depth ++ prettyAt depth item ++
      prettyItems depth items) ++ (symbolsOf (newline depth') ++ some ']' :: rest))) = _
    simp only [symbolsOf_append, List.append_assoc]
    rw [itemsFrom, skipSpaces_cons _ _ (by decide)]
    show (valueFrom fuel (symbolsOf (newline depth) ++ _)).bind _ = _
    rw [valueFrom_newline, hread, Option.bind_some]
    show (itemsFrom fuel _).bind _ = _
    rw [hmore]
    rfl

/-- Printed members are read as they were, up to the closing brace. -/
theorem membersFrom_read (members : List (Option String × Json)) (depth depth' fuel : Nat)
    (rest : Symbols) (hv : PlainMembers members)
    (hfuel : 2 * (prettyMembers depth members).length + 1 ≤ fuel) :
    membersFrom fuel (symbolsOf (prettyMembers depth members) ++
      (symbolsOf (newline depth') ++ some '\x7d' :: rest)) = some (members, rest) := by
  obtain ⟨fuel, rfl⟩ : ∃ n, fuel = n + 1 := ⟨fuel - 1, by omega⟩
  match members with
  | [] =>
    rw [prettyMembers]
    show membersFrom (fuel + 1) (symbolsOf (newline depth') ++ some '\x7d' :: rest) = _
    rw [membersFrom_newline, membersFrom]
    rfl
  | (name, value) :: members =>
    obtain ⟨hname, hvalue, hmembers⟩ := hv
    obtain ⟨text, rfl⟩ := Option.isSome_iff_exists.mp hname
    rw [prettyMembers] at hfuel ⊢
    simp only [List.length_cons, List.length_append, newline_length, List.length_nil] at hfuel
    -- a member takes one unit more than its value
    obtain ⟨fuel, rfl⟩ : ∃ n, fuel = n + 1 := ⟨fuel - 1, by omega⟩
    have hread := memberFrom_read depth fuel text value
      (symbolsOf (prettyMembers depth members) ++
        (symbolsOf (newline depth') ++ some '\x7d' :: rest))
      (valueFrom_read value depth fuel _ hvalue (stops_members _ _ _ _) (by omega))
    have hmore := membersFrom_read members depth depth' (fuel + 1) rest hmembers (by omega)
    show membersFrom (fuel + 1 + 1) (some ',' :: (symbolsOf (newline depth ++
      literalOf (some text) ++ [':', ' '] ++ prettyAt depth value ++
        prettyMembers depth members) ++ (symbolsOf (newline depth') ++ some '\x7d' :: rest))) = _
    simp only [symbolsOf_append, List.append_assoc]
    rw [membersFrom, skipSpaces_cons _ _ (by decide)]
    show (memberFrom (fuel + 1) (symbolsOf (newline depth) ++ _)).bind _ = _
    rw [memberFrom_newline, hread, Option.bind_some]
    show (membersFrom (fuel + 1) _).bind _ = _
    rw [hmore]
    rfl

end

/-- A plain value that is printed in a document is read back as it was. -/
theorem ofBytes_pretty (v : Json) (hv : Plain v) : ofBytes? v.pretty.toUTF8 = some v := by
  have hlength : 2 * (prettyAt 0 v).length ≤ 2 * (symbolsOf (prettyAt 0 v)).length + 2 := by
    rw [symbolsOf, List.length_map]
    omega
  have hread := valueFrom_read v 0 _ [] hv (.inl rfl) hlength
  rw [List.append_nil] at hread
  have hsymbols : (prettyAt 0 v).map some = symbolsOf (prettyAt 0 v) := rfl
  rw [ofBytes?, Text.symbols_toUTF8, pretty, String.toList_ofList, ofSymbols?, hsymbols, hread]
  rfl

end Json

end CodeIndex
