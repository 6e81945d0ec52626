import Mathlib.Algebra.Group.Nat.Defs
import CodeIndex.Time.Timestamp

namespace CodeIndex

namespace Date

def OnCalendar (d : Date) : Prop :=
  1 ≤ d.month ∧ d.month ≤ 12 ∧ 1 ≤ d.day ∧ d.day ≤ monthLength d.year d.month

theorem isValid_iff (d : Date) :
    d.isValid = true ↔ yearInRange d.year = true ∧ d.OnCalendar := by
  simp only [isValid, OnCalendar, Bool.and_eq_true, decide_eq_true_eq, and_assoc]

theorem monthLength_bounds (year : Int) (month : Nat) :
    1 ≤ monthLength year month ∧ monthLength year month ≤ 31 := by
  unfold monthLength
  split
  · split <;> omega
  · split <;> omega

theorem next_onCalendar (d : Date) (h : d.OnCalendar) : d.next.OnCalendar := by
  obtain ⟨hm1, hm2, hd1, hd2⟩ := h
  unfold next
  split
  · rename_i hday
    exact ⟨hm1, hm2, Nat.le_add_left 1 _, hday⟩
  · split
    · rename_i hmonth
      exact ⟨Nat.le_add_left 1 _, hmonth, Nat.le_refl 1, (monthLength_bounds _ _).1⟩
    · exact ⟨Nat.le_refl 1, (by show 1 ≤ 12; omega), Nat.le_refl 1, (monthLength_bounds _ _).1⟩

/-- A date on the calendar is less than two hundred million days from the start of year 0. -/
theorem dayNumber_lt (d : Date) (h : d.isValid = true) : d.dayNumber < 200000000 := by
  obtain ⟨hyear, hm1, hm2, hd1, hd2⟩ := (isValid_iff d).mp h
  have hfold (ms : List Nat) (init : Int) :
      ms.foldl (fun days m => days + (monthLength d.year (m + 1) : Int)) init ≤
        init + 31 * ms.length := by
    induction ms generalizing init with
    | nil => simp
    | cons m ms ih =>
      have hone := (monthLength_bounds d.year (m + 1)).2
      have hrest := ih (init + (monthLength d.year (m + 1) : Int))
      rw [List.foldl_cons, List.length_cons]
      omega
  have hlen := (monthLength_bounds d.year d.month).2
  have hmonths := hfold (List.range (d.month - 1))
    (d.year * 365 + (d.year - 1) / 4 - (d.year - 1) / 100 + (d.year - 1) / 400 + 1)
  rw [List.length_range] at hmonths
  have hrange : -262143 ≤ d.year ∧ d.year ≤ 262142 := by
    simpa [yearInRange] using hyear
  unfold dayNumber
  dsimp only
  omega

end Date

namespace Timestamp

/-- An instant that the calendar and the clock have; a leap second stands at the end of a
minute. -/
structure Valid (t : Timestamp) : Prop where
  date : t.date.isValid = true
  second : t.second < 86400
  nano : t.nano < 2 * Duration.second
  leap : Duration.second ≤ t.nano → t.second % 60 = 59

theorem addDays_onCalendar (n : Nat) (d : Date) (h : d.OnCalendar) : (addDays n d).OnCalendar := by
  induction n generalizing d with
  | zero => exact h
  | succ n ih => exact ih d.next (Date.next_onCalendar d h)

/-- An instant stays valid as time passes, as long as the calendar lasts. -/
theorem advance_valid (t : Timestamp) (d : Duration) (h : t.Valid)
    (hyear : Date.yearInRange (t.advance d).date.year = true) : (t.advance d).Valid where
  date := (Date.isValid_iff _).mpr
    ⟨hyear, addDays_onCalendar _ _ ((Date.isValid_iff _).mp h.date).2⟩
  second := Nat.mod_lt _ (by decide)
  nano := Nat.lt_of_lt_of_le (Nat.mod_lt _ (by decide)) (by decide)
  leap hle := absurd (Nat.mod_lt _ (by decide)) (Nat.not_lt.mpr hle)

/-- A valid instant is less than 2^63 seconds from the start of 1970. -/
theorem age_secs_lt (t : Timestamp) (h : t.Valid) :
    (t.age ⟨⟨1970, 1, 1⟩, 0, 0⟩).secs < Nat.pow 2 63 := by
  have hday := Date.dayNumber_lt t.date h.date
  have hsecond := h.second
  have hnano : t.nano < 2000000000 := h.nano
  have hepoch : (⟨1970, 1, 1⟩ : Date).dayNumber = 719528 := by decide
  have hsince : t.since ⟨⟨1970, 1, 1⟩, 0, 0⟩ < 20000000000000 * 1000000000 := by
    unfold since
    simp only [hepoch, daySeconds, Duration.second]
    have hleap : (if 0 < t.second then (if 1000000000 ≤ 0 then (1 : Int) else 0)
        else if t.second < 0 then (if 1000000000 ≤ t.nano then -1 else 0) else 0) ≤ 1 := by
      split
      · split <;> omega
      · split
        · split <;> omega
        · omega
    omega
  unfold age Duration.secs
  show (t.since ⟨⟨1970, 1, 1⟩, 0, 0⟩).toNat / Duration.second < Nat.pow 2 63
  rw [Nat.div_lt_iff_lt_mul (by decide)]
  have hpow : Nat.pow 2 63 * Duration.second = 9223372036854775808000000000 := by decide
  omega

/-! ### Reading a text back -/

theorem digit_ofNat (n : Nat) (h : n < 10) : digit? (Char.ofNat (48 + n)) = some n := by
  have hall : ∀ n, n < 10 → digit? (Char.ofNat (48 + n)) = some n := by decide
  exact hall n h

theorem value_append (ds : List Nat) (d : Nat) : value (ds ++ [d]) = value ds * 10 + d := by
  unfold value
  rw [List.foldl_append]
  rfl

/-- The front of a list holds digits, and what follows is no digit or past the limit. -/
theorem takeDigits_read (limit : Nat) (cs rest : List Char) (ds : List Nat)
    (hcs : cs.map digit? = ds.map some) (hlimit : cs.length ≤ limit)
    (hrest : cs.length = limit ∨ ∀ c more, rest = c :: more → digit? c = none) :
    takeDigits limit (cs ++ rest) = (ds, rest) := by
  induction cs generalizing limit ds with
  | nil =>
    have hds : ds = [] := by simpa using hcs.symm
    rw [hds, List.nil_append]
    cases limit with
    | zero => rfl
    | succ limit =>
      cases rest with
      | nil => rfl
      | cons c more =>
        have hc : digit? c = none := by
          rcases hrest with h | h
          · cases h
          · exact h c more rfl
        rw [takeDigits, hc]
  | cons c cs ih =>
    cases ds with
    | nil => simp at hcs
    | cons d ds =>
      rw [List.map_cons, List.map_cons, List.cons_eq_cons] at hcs
      obtain ⟨limit, rfl⟩ : ∃ n, limit = n + 1 := ⟨limit - 1, by
        rw [List.length_cons] at hlimit
        omega⟩
      rw [List.length_cons] at hlimit hrest
      rw [List.cons_append, takeDigits, hcs.1,
        ih limit ds hcs.2 (by omega) (hrest.imp (by omega) id)]

/-- A number in fixed width is made of digits, and they have its value. -/
theorem digits_read (width n : Nat) (h : n < 10 ^ width) :
    (Duration.digits width n).length = width ∧
    ∃ ds : List Nat, (Duration.digits width n).map digit? = ds.map some ∧ value ds = n := by
  induction width generalizing n with
  | zero =>
    refine ⟨rfl, [], rfl, ?_⟩
    rw [Nat.pow_zero] at h
    show 0 = n
    omega
  | succ width ih =>
    rw [Nat.pow_succ] at h
    obtain ⟨hlen, ds, hds, hvalue⟩ := ih (n / 10) (by omega)
    refine ⟨?_, ds ++ [n % 10], ?_, ?_⟩
    · rw [Duration.digits, List.length_append, hlen]
      rfl
    · rw [Duration.digits, List.map_append, hds, List.map_append, List.map_singleton,
        digit_ofNat _ (Nat.mod_lt _ (by omega))]
      rfl
    · rw [value_append, hvalue]
      omega

theorem digit_notBlank (c : Char) (n : Nat) (h : digit? c = some n) : Text.isBlank c = false := by
  unfold digit? at h
  split at h
  · rename_i hc
    have h1 : 48 ≤ c.toNat := hc.1
    have h2 : c.toNat ≤ 57 := hc.2
    simp only [Text.isBlank, Bool.or_eq_false_iff, Bool.and_eq_false_iff, beq_eq_false_iff_ne,
      decide_eq_false_iff_not]
    omega
  · cases h

theorem skipBlanks_digits (cs rest : List Char) (ds : List Nat) (hcs : cs.map digit? = ds.map some)
    (hne : cs ≠ []) : skipBlanks (cs ++ rest) = cs ++ rest := by
  cases cs with
  | nil => exact absurd rfl hne
  | cons c cs =>
    cases ds with
    | nil => simp at hcs
    | cons d ds =>
      rw [List.map_cons, List.map_cons, List.cons_eq_cons] at hcs
      unfold skipBlanks
      rw [List.cons_append, List.dropWhile_cons_of_neg]
      rw [digit_notBlank c d hcs.1]
      simp

theorem number_read (limit : Nat) (cs rest : List Char) (ds : List Nat) (hne : cs ≠ [])
    (hcs : cs.map digit? = ds.map some) (hlimit : cs.length ≤ limit)
    (hrest : cs.length = limit ∨ ∀ c more, rest = c :: more → digit? c = none) :
    number? limit (cs ++ rest) = some (value ds, rest) := by
  unfold number?
  rw [takeDigits_read limit cs rest ds hcs hlimit hrest]
  cases ds with
  | nil =>
    cases cs with
    | nil => exact absurd rfl hne
    | cons c cs => simp at hcs
  | cons d ds => rfl

theorem field_read (n : Nat) (h : n < 100) (rest : List Char) :
    field? (Duration.digits 2 n ++ rest) = some (n, rest) := by
  obtain ⟨hlen, ds, hds, hvalue⟩ := digits_read 2 n h
  have hne : Duration.digits 2 n ≠ [] := by
    intro hnil
    rw [hnil] at hlen
    cases hlen
  unfold field?
  rw [skipBlanks_digits _ rest ds hds hne,
    number_read 2 _ rest ds hne hds (by omega) (.inl hlen), hvalue]

theorem toDigits_read (n : Nat) :
    ∃ ds : List Nat, (Nat.toDigits 10 n).map digit? = ds.map some ∧ value ds = n := by
  induction n using Nat.strongRecOn with
  | ind n ih =>
    have hchar (d : Nat) (hd : d < 10) : digit? d.digitChar = some d := by
      have hall : ∀ d, d < 10 → digit? d.digitChar = some d := by decide
      exact hall d hd
    by_cases hlt : n < 10
    · refine ⟨[n], ?_, ?_⟩
      · rw [Nat.toDigits_of_lt_base hlt, List.map_singleton, hchar n hlt]
        rfl
      · show 0 * 10 + n = n
        omega
    · obtain ⟨ds, hds, hvalue⟩ := ih (n / 10) (by omega)
      refine ⟨ds ++ [n % 10], ?_, ?_⟩
      · rw [Nat.toDigits_of_base_le (by omega) (by omega), List.map_append, hds, List.map_append,
          List.map_singleton, hchar _ (Nat.mod_lt _ (by omega))]
        rfl
      · rw [value_append, hvalue]
        omega

theorem padded_read (zeros n : Nat) :
    ∃ ds : List Nat, (List.replicate zeros '0' ++ Nat.toDigits 10 n).map digit? = ds.map some ∧
      value ds = n := by
  induction zeros with
  | zero => simpa using toDigits_read n
  | succ zeros ih =>
    obtain ⟨ds, hds, hvalue⟩ := ih
    refine ⟨0 :: ds, ?_, ?_⟩
    · rw [List.replicate_succ, List.cons_append, List.map_cons, hds]
      rfl
    · exact hvalue

theorem digit_hyphen (rest : List Char) :
    ∀ c more, '-' :: rest = c :: more → digit? c = none := by
  intro c more heq
  injection heq with hc _
  rw [← hc]
  rfl

theorem year_unsigned (c : Char) (d : Nat) (more : List Char) (hd : digit? c = some d) :
    year? (c :: more) = (number? 4 (c :: more)).map fun (n, rest) => ((n : Int), rest) := by
  have hskip : skipBlanks (c :: more) = c :: more := by
    unfold skipBlanks
    rw [List.dropWhile_cons_of_neg (by rw [digit_notBlank c d hd]; decide)]
  unfold year?
  rw [hskip]
  split
  · rename_i heq
    injection heq with hc _
    rw [hc] at hd
    cases hd
  · rename_i heq
    injection heq with hc _
    rw [hc] at hd
    cases hd
  · rfl

theorem year_negative (cs : List Char) : year? ('-' :: cs) =
    (number? cs.length cs).map fun (n, more) => (-(n : Int), more) := rfl

theorem year_positive (cs : List Char) : year? ('+' :: cs) =
    (number? cs.length cs).map fun (n, more) => ((n : Int), more) := rfl

theorem year_read (year : Int) (rest : List Char) :
    year? ((yearText year).toList ++ '-' :: rest) = some (year, '-' :: rest) := by
  unfold yearText
  split
  · -- a year of four digits has no sign
    rename_i hrange
    rw [String.toList_ofList]
    obtain ⟨hlen, ds, hds, hvalue⟩ := digits_read 4 year.toNat (by omega)
    have hne : Duration.digits 4 year.toNat ≠ [] := by
      intro hnil
      rw [hnil] at hlen
      cases hlen
    have hnumber := number_read 4 _ ('-' :: rest) ds hne hds (by omega) (.inl hlen)
    cases hdigits : Duration.digits 4 year.toNat with
    | nil => exact absurd hdigits hne
    | cons c cs =>
      rw [hdigits] at hds hnumber
      cases ds with
      | nil => simp at hds
      | cons d ds =>
        rw [List.map_cons, List.map_cons, List.cons_eq_cons] at hds
        rw [List.cons_append] at hnumber ⊢
        rw [year_unsigned c d _ hds.1, hnumber, hvalue]
        show some (((year.toNat : Nat) : Int), _) = _
        rw [Int.toNat_of_nonneg hrange.1]
  · -- any other year has a sign and at least four digits
    rename_i hrange
    dsimp only
    obtain ⟨ds, hds, hvalue⟩ := padded_read (4 - (toString year.natAbs).length) year.natAbs
    have hne : List.replicate (4 - (toString year.natAbs).length) '0'
        ++ Nat.toDigits 10 year.natAbs ≠ [] := by simp [Nat.toDigits_ne_nil]
    have hnumber := fun limit hlimit =>
      number_read limit _ ('-' :: rest) ds hne hds hlimit (.inr (digit_hyphen rest))
    simp only [List.append_assoc] at hnumber
    have hmagnitude : (toString year.natAbs).toList = Nat.toDigits 10 year.natAbs := by
      rw [Nat.toString_eq_repr, Nat.toList_repr]
    simp only [String.toList_append, String.toList_ofList, hmagnitude]
    by_cases hneg : year < 0
    · have hsign : "-".toList = ['-'] := rfl
      rw [if_pos hneg, hsign, List.append_assoc, List.singleton_append, List.cons_append,
        year_negative, hnumber _ (by simp), hvalue]
      simp only [Option.map_some, Option.some.injEq, Prod.mk.injEq, and_true]
      omega
    · have hsign : "+".toList = ['+'] := rfl
      rw [if_neg hneg, hsign, List.append_assoc, List.singleton_append, List.cons_append,
        year_positive, hnumber _ (by simp), hvalue]
      simp only [Option.map_some, Option.some.injEq, Prod.mk.injEq, and_true]
      omega

/-- A fraction of so many digits is read as that many nanoseconds. -/
theorem fraction_digits (width n : Nat) (hn : n < 10 ^ width) (hpos : 0 < width) (h9 : width ≤ 9)
    (rest : List Char) :
    fraction? ('.' :: (Duration.digits width n ++ 'Z' :: rest)) =
      some (n * Nat.pow 10 (9 - width), 'Z' :: rest) := by
  obtain ⟨hlen, ds, hds, hvalue⟩ := digits_read width n hn
  have hds' : ds.length = width := by
    have hcount := congrArg List.length hds
    rw [List.length_map, List.length_map] at hcount
    omega
  have hread := takeDigits_read 9 (Duration.digits width n) ('Z' :: rest) ds hds (by omega)
    (.inr (by
      intro c more heq
      injection heq with hc _
      rw [← hc]
      rfl))
  rw [fraction?, hread]
  cases ds with
  | nil =>
    rw [List.length_nil] at hds'
    omega
  | cons d ds =>
    simp only [hvalue, hds']
    rfl

theorem fraction_read (nano : Nat) (h : nano < Duration.second) (rest : List Char) :
    fraction? ((fractionText nano).toList ++ 'Z' :: rest) = some (nano, 'Z' :: rest) := by
  have hlt : nano < 1000000000 := h
  have h3 : Nat.pow 10 (9 - 3) = 1000000 := rfl
  have h6 : Nat.pow 10 (9 - 6) = 1000 := rfl
  have h9 : Nat.pow 10 (9 - 9) = 1 := rfl
  have hpoint (cs : List Char) :
      ("." ++ String.ofList cs).toList ++ 'Z' :: rest = '.' :: (cs ++ 'Z' :: rest) := by
    simp only [String.toList_append, String.toList_ofList]
    rfl
  unfold fractionText
  split
  · rename_i hzero
    rw [hzero]
    rfl
  · split
    · rw [hpoint, fraction_digits 3 _ (by omega) (by omega) (by omega), h3]
      congr 2
      omega
    · split
      · rw [hpoint, fraction_digits 6 _ (by omega) (by omega) (by omega), h6]
        congr 2
        omega
      · rw [hpoint, fraction_digits 9 _ (by omega) (by omega) (by omega), h9]
        congr 2
        omega

theorem expect_read (c : Char) (rest : List Char) (h : Text.isBlank c = false) :
    expect c (c :: rest) = some rest := by
  unfold expect skipBlanks
  rw [List.dropWhile_cons_of_neg (by rw [h]; decide)]
  exact if_pos rfl

theorem parse_text (t : Timestamp) (h : t.Valid) : parse? t.text = some t := by
  obtain ⟨hyear, hm1, hm2, hd1, hd2⟩ := (Date.isValid_iff t.date).mp h.date
  have hd3 := (Date.monthLength_bounds t.date.year t.date.month).2
  have hsecond := h.second
  have hnano : t.nano < 2000000000 := h.nano
  have hleap : 1000000000 ≤ t.nano → t.second % 60 = 59 := h.leap
  have hcs : t.text.toList = (yearText t.date.year).toList ++ '-' ::
      (Duration.digits 2 t.date.month ++ '-' :: (Duration.digits 2 t.date.day ++ 'T' ::
      (Duration.digits 2 (t.second / 3600) ++ ':' ::
      (Duration.digits 2 (t.second / 60 % 60) ++ ':' ::
      (Duration.digits 2 (t.second % 60 + t.nano / Duration.second) ++
      ((fractionText (t.nano % Duration.second)).toList ++ 'Z' :: [])))))) := by
    unfold text two
    simp only [String.toList_append, String.toList_ofList, List.append_assoc]
    rfl
  have hlimit : t.second % 60 + t.nano / 1000000000 < 100 := by omega
  have hhour : t.second / 3600 < 24 := by omega
  unfold parse?
  rw [hcs]
  simp only [bind, Option.bind, year_read, expect_read '-' _ rfl, expect_read ':' _ rfl,
    field_read t.date.month (by omega), field_read t.date.day (by omega),
    field_read (t.second / 3600) (by omega), field_read (t.second / 60 % 60) (by omega),
    field_read (t.second % 60 + t.nano / Duration.second) hlimit,
    fraction_read _ (Nat.mod_lt t.nano (by decide : 0 < Duration.second))]
  have hoffset : offset? ['Z'] = some (0, []) := rfl
  simp only [hoffset, true_or, if_true]
  have hdate : (⟨t.date.year, t.date.month, t.date.day⟩ : Date) = t.date := rfl
  rw [hdate]
  have hmain : ((skipBlanks ([] : List Char)).isEmpty && t.date.isValid
      && decide (t.second / 3600 < 24) && decide (t.second / 60 % 60 < 60)
      && decide (t.second % 60 + t.nano / Duration.second ≤ 60)
      && decide ((0 : Int).natAbs < daySeconds)) = true := by
    have h60 : t.second % 60 + t.nano / Duration.second ≤ 60 := by
      show t.second % 60 + t.nano / 1000000000 ≤ 60
      omega
    simp only [h.date, hhour, h60, Nat.mod_lt _ (by decide : 0 < 60), decide_true, Bool.and_true]
    decide
  rw [if_pos hmain]
  -- without an offset the local time is the time itself
  have hlocal (nano : Nat) : ofLocal t.date t.second nano 0 = some ⟨t.date, t.second, nano⟩ := by
    have h1 : ¬(t.second : Int) < 0 := by omega
    have h2 : ¬(daySeconds : Int) ≤ (t.second : Int) := by
      show ¬(86400 : Int) ≤ _
      omega
    unfold ofLocal
    simp only [Int.sub_zero, if_neg h1, if_neg h2, Int.toNat_natCast, if_pos hyear]
  split
  · rename_i hsixty
    have hsixty' : t.second % 60 + t.nano / 1000000000 = 60 := hsixty
    have hsum : t.second / 3600 * 3600 + t.second / 60 % 60 * 60 + 59 = t.second := by omega
    have hnano' : t.nano % Duration.second + Duration.second = t.nano := by
      show t.nano % 1000000000 + 1000000000 = t.nano
      omega
    rw [hsum, hnano', hlocal]
  · rename_i hsixty
    have hsixty' : t.second % 60 + t.nano / 1000000000 ≠ 60 := hsixty
    have hzero : t.nano / 1000000000 = 0 := by omega
    have hsum : t.second / 3600 * 3600 + t.second / 60 % 60 * 60
        + (t.second % 60 + t.nano / Duration.second) = t.second := by
      show _ + (t.second % 60 + t.nano / 1000000000) = _
      omega
    have hnano' : t.nano % Duration.second = t.nano := by
      show t.nano % 1000000000 = t.nano
      omega
    rw [hsum, hnano', hlocal]

/-! ### What is read is valid -/

theorem digit_lt (c : Char) (d : Nat) (h : digit? c = some d) : d < 10 := by
  unfold digit? at h
  split at h
  · rename_i hc
    have h2 : c.toNat ≤ 57 := hc.2
    injection h with h
    omega
  · cases h

/-- The digits at the front are at most `limit`, and their value has no more digits. -/
theorem takeDigits_lt (limit : Nat) (cs rest : List Char) (ds : List Nat)
    (h : takeDigits limit cs = (ds, rest)) : ds.length ≤ limit ∧ ∀ d ∈ ds, d < 10 := by
  induction limit generalizing cs ds with
  | zero =>
    rw [takeDigits] at h
    injection h with h _
    rw [← h]
    exact ⟨Nat.le_refl 0, fun d hd => absurd hd List.not_mem_nil⟩
  | succ limit ih =>
    cases cs with
    | nil =>
      rw [takeDigits] at h
      injection h with h _
      rw [← h]
      exact ⟨Nat.zero_le _, fun d hd => absurd hd List.not_mem_nil⟩
    | cons c cs =>
      rw [takeDigits] at h
      -- at the first character that is no digit nothing more is taken
      cases hc : digit? c with
      | none =>
        rw [hc] at h
        injection h with h _
        rw [← h]
        exact ⟨Nat.zero_le _, fun d hd => absurd hd List.not_mem_nil⟩
      | some d =>
        rw [hc] at h
        injection h with h hrest
        obtain ⟨hlen, hall⟩ := ih cs _ (Prod.ext rfl hrest)
        rw [← h]
        refine ⟨Nat.succ_le_succ hlen, fun e he => ?_⟩
        rcases List.mem_cons.mp he with rfl | he
        · exact digit_lt c e hc
        · exact hall e he

theorem value_lt (ds : List Nat) (h : ∀ d ∈ ds, d < 10) : value ds < 10 ^ ds.length := by
  have hfold (ds : List Nat) (init : Nat) (h : ∀ d ∈ ds, d < 10) :
      ds.foldl (fun n d => n * 10 + d) init < (init + 1) * 10 ^ ds.length := by
    induction ds generalizing init with
    | nil => simp
    | cons d ds ih =>
      have hd := h d List.mem_cons_self
      have hrest := ih (init * 10 + d) fun e he => h e (List.mem_cons_of_mem d he)
      rw [List.foldl_cons, List.length_cons, Nat.pow_succ']
      calc _ < (init * 10 + d + 1) * 10 ^ ds.length := hrest
        _ ≤ ((init + 1) * 10) * 10 ^ ds.length := Nat.mul_le_mul_right _ (by omega)
        _ = (init + 1) * (10 * 10 ^ ds.length) := Nat.mul_assoc _ _ _
  have hall := hfold ds 0 h
  rw [Nat.zero_add, Nat.one_mul] at hall
  exact hall

theorem fraction_lt (cs rest : List Char) (nano : Nat) (h : fraction? cs = some (nano, rest)) :
    nano < Duration.second := by
  unfold fraction? at h
  split at h
  · rename_i cs
    cases hread : takeDigits 9 cs with
    | mk ds more =>
      rw [hread] at h
      obtain ⟨hlen, hall⟩ := takeDigits_lt 9 cs more ds hread
      have hvalue := value_lt ds hall
      cases ds with
      | nil => cases h
      | cons d ds =>
        injection h with h
        injection h with h _
        rw [← h]
        calc value (d :: ds) * 10 ^ (9 - (d :: ds).length)
            < 10 ^ (d :: ds).length * 10 ^ (9 - (d :: ds).length) :=
              Nat.mul_lt_mul_of_pos_right hvalue (Nat.pow_pos (by decide))
          _ = 10 ^ 9 := by rw [← Nat.pow_add, Nat.add_sub_cancel' hlen]
          _ = Duration.second := rfl
  · injection h with h
    injection h with h _
    rw [← h]
    decide

theorem signed_minutes (negative : Bool) (cs rest : List Char) (offset : Int)
    (h : (match cs with
      | c :: d :: rest => do
        let tens ← digit? c
        let units ← digit? d
        let (minutes, rest) ←
          offsetMinutes? (rest.dropWhile fun c => c == ':' || Text.isBlank c)
        let seconds : Int := ((tens : Int) * 10 + (units : Int)) * 3600 + (minutes : Int) * 60
        some (if negative then -seconds else seconds, rest)
      | _ => none) = some (offset, rest)) : offset % 60 = 0 := by
  have hminutes (tens units minutes : Nat) :
      (((tens : Int) * 10 + units) * 3600 + (minutes : Int) * 60) % 60 = 0 ∧
      (-(((tens : Int) * 10 + units) * 3600 + (minutes : Int) * 60)) % 60 = 0 := by omega
  split at h
  · obtain ⟨tens, _, h⟩ := Option.bind_eq_some_iff.mp h
    obtain ⟨units, _, h⟩ := Option.bind_eq_some_iff.mp h
    obtain ⟨⟨minutes, more⟩, _, h⟩ := Option.bind_eq_some_iff.mp h
    injection h with h
    injection h with h _
    rw [← h]
    have hboth := hminutes tens units minutes
    cases negative with
    | true => exact hboth.2
    | false => exact hboth.1
  · cases h

theorem offset_minutes (cs rest : List Char) (offset : Int) (h : offset? cs = some (offset, rest)) :
    offset % 60 = 0 := by
  have hzero (more : List Char) (h : some ((0 : Int), more) = some (offset, rest)) :
      offset % 60 = 0 := by
    injection h with h
    injection h with h _
    rw [← h]
    rfl
  unfold offset? at h
  dsimp only at h
  split at h
  · exact hzero _ h
  · exact hzero _ h
  · exact signed_minutes false _ _ _ h
  · exact signed_minutes true _ _ _ h
  · exact signed_minutes true _ _ _ h
  · split at h
    · exact hzero _ h
    · cases h
  · cases h

theorem previous_onCalendar (d : Date) (h : d.OnCalendar) : d.previous.OnCalendar := by
  obtain ⟨hm1, hm2, hd1, hd2⟩ := h
  unfold Date.previous
  split
  · rename_i hday
    exact ⟨hm1, hm2, (by show 1 ≤ d.day - 1; omega), Nat.le_trans (Nat.sub_le _ _) hd2⟩
  · split
    · rename_i hmonth
      exact ⟨(by show 1 ≤ d.month - 1; omega), (by show d.month - 1 ≤ 12; omega),
        (Date.monthLength_bounds _ _).1, Nat.le_refl _⟩
    · exact ⟨(by show 1 ≤ 12; omega), Nat.le_refl 12, (by show 1 ≤ 31; omega), Nat.le_refl 31⟩

/-- The instant of a local time is valid; an offset of whole minutes keeps the seconds within the
minute. -/
theorem ofLocal_valid (date : Date) (second nano : Nat) (offset : Int) (t : Timestamp)
    (hdate : date.isValid = true) (hsecond : second < 86400) (hoffset : offset.natAbs < 86400)
    (hminutes : offset % 60 = 0) (hnano : nano < 2 * Duration.second)
    (hleap : Duration.second ≤ nano → second % 60 = 59)
    (h : ofLocal date second nano offset = some t) : t.Valid := by
  have hcalendar := ((Date.isValid_iff date).mp hdate).2
  have hday : (daySeconds : Int) = 86400 := rfl
  have hresult (r : Timestamp)
      (h : (if Date.yearInRange r.date.year then some r else none) = some t) :
      Date.yearInRange t.date.year = true ∧ r = t := by
    split at h
    · rename_i hyear
      injection h with h
      exact ⟨h ▸ hyear, h⟩
    · cases h
  unfold ofLocal at h
  obtain ⟨hyear, h⟩ := hresult _ h
  -- the offset may lead to the day before or to the next one, and leaves the second of the minute
  -- as it is
  by_cases hneg : (second : Int) - offset < 0
  · rw [if_pos hneg] at h
    subst h
    refine ⟨(Date.isValid_iff _).mpr ⟨hyear, previous_onCalendar date hcalendar⟩, ?_, hnano, ?_⟩
    · show ((second : Int) - offset + daySeconds).toNat < 86400
      omega
    · intro hle
      have hsixty := hleap hle
      show ((second : Int) - offset + daySeconds).toNat % 60 = 59
      omega
  · by_cases hover : (daySeconds : Int) ≤ (second : Int) - offset
    · rw [if_neg hneg, if_pos hover] at h
      subst h
      refine ⟨(Date.isValid_iff _).mpr ⟨hyear, Date.next_onCalendar date hcalendar⟩, ?_,
        hnano, ?_⟩
      · show ((second : Int) - offset - daySeconds).toNat < 86400
        omega
      · intro hle
        have hsixty := hleap hle
        show ((second : Int) - offset - daySeconds).toNat % 60 = 59
        omega
    · rw [if_neg hneg, if_neg hover] at h
      subst h
      refine ⟨hdate, ?_, hnano, ?_⟩
      · show ((second : Int) - offset).toNat < 86400
        omega
      · intro hle
        have hsixty := hleap hle
        show ((second : Int) - offset).toNat % 60 = 59
        omega

theorem parse_valid (s : String) (t : Timestamp) (h : parse? s = some t) : t.Valid := by
  unfold parse? at h
  obtain ⟨⟨year, _⟩, _, h⟩ := Option.bind_eq_some_iff.mp h
  obtain ⟨_, _, h⟩ := Option.bind_eq_some_iff.mp h
  obtain ⟨⟨month, _⟩, _, h⟩ := Option.bind_eq_some_iff.mp h
  obtain ⟨_, _, h⟩ := Option.bind_eq_some_iff.mp h
  obtain ⟨⟨day, cs⟩, _, h⟩ := Option.bind_eq_some_iff.mp h
  -- one character stands between the date and the time of day
  rcases cs with _ | ⟨c, rest⟩
  · cases h
  dsimp only at h
  split at h
  rotate_left
  · cases h
  obtain ⟨_, _, h⟩ := Option.bind_eq_some_iff.mp h
  obtain ⟨⟨hour, _⟩, _, h⟩ := Option.bind_eq_some_iff.mp h
  obtain ⟨_, _, h⟩ := Option.bind_eq_some_iff.mp h
  obtain ⟨⟨minute, _⟩, _, h⟩ := Option.bind_eq_some_iff.mp h
  obtain ⟨_, _, h⟩ := Option.bind_eq_some_iff.mp h
  obtain ⟨⟨second, _⟩, _, h⟩ := Option.bind_eq_some_iff.mp h
  obtain ⟨⟨nano, _⟩, hnano, h⟩ := Option.bind_eq_some_iff.mp h
  obtain ⟨⟨offset, _⟩, hoffset, h⟩ := Option.bind_eq_some_iff.mp h
  have hfraction := fraction_lt _ _ _ hnano
  have hminutes := offset_minutes _ _ _ hoffset
  have hbillion : Duration.second = 1000000000 := rfl
  split at h
  · rename_i hall
    simp only [Bool.and_eq_true, decide_eq_true_eq] at hall
    obtain ⟨⟨⟨⟨⟨_, hdate⟩, hhour⟩, hminute⟩, hsecond⟩, hbound⟩ := hall
    have hbound : offset.natAbs < 86400 := hbound
    split at h
    · exact ofLocal_valid _ _ _ _ _ hdate (by omega) hbound hminutes (by omega)
        (fun _ => by omega) h
    · exact ofLocal_valid _ _ _ _ _ hdate (by omega) hbound hminutes (by omega)
        (fun hle => absurd hle (by omega)) h
  · cases h

end Timestamp

end CodeIndex
