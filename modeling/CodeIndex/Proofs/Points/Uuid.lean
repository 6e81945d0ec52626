import CodeIndex.Points.Uuid

namespace CodeIndex.Uuid

def lowerDigits : List Char := "0123456789abcdef".toList

/-- The id of an entity: 32 digits. -/
structure IsId (id : String) : Prop where
  length : id.toList.length = 32
  digits : ∀ c ∈ id.toList, c ∈ lowerDigits

instance (id : String) : Decidable (IsId id) :=
  -- by the characters of the id: to go through all characters there are takes too long
  decidable_of_iff (id.toList.length = 32 ∧ id.toList.all lowerDigits.contains = true)
    ⟨fun h => ⟨h.1, fun c hc => List.contains_iff_mem.mp (List.all_eq_true.mp h.2 c hc)⟩,
      fun h => ⟨h.length, List.all_eq_true.mpr fun c hc => List.contains_iff_mem.mpr
        (h.digits c hc)⟩⟩

def pointOf (id : String) : String := String.ofList (hyphenated id.toList)

theorem mapM_lowerDigits (cs : List Char) (h : ∀ c ∈ cs, c ∈ lowerDigits) :
    (cs.mapM Text.hexValue?).map (·.map Text.hexDigit) = some cs := by
  have hall : lowerDigits.all (fun c => (Text.hexValue? c).map Text.hexDigit == some c) = true := by
    decide
  have hone : ∀ c ∈ lowerDigits, (Text.hexValue? c).map Text.hexDigit = some c :=
    fun c hc => beq_iff_eq.mp (List.all_eq_true.mp hall c hc)
  induction cs with
  | nil => rfl
  | cons c cs ih =>
    obtain ⟨n, hn, hc⟩ := Option.map_eq_some_iff.mp (hone c (h c List.mem_cons_self))
    obtain ⟨ns, hns, hcs⟩ :=
      Option.map_eq_some_iff.mp (ih fun c hc => h c (List.mem_cons_of_mem _ hc))
    rw [List.mapM_cons, hn, hns, ← hc, ← hcs]
    rfl

theorem canonical_of_isId (id : String) (h : IsId id) : canonical? id = some (pointOf id) := by
  have hdigits : digits? id.toList = some id.toList := by
    unfold digits?
    rw [if_pos h.length]
    exact mapM_lowerDigits _ h.digits
  unfold canonical? digitsOf?
  rw [hdigits]
  rfl

/-- Groups of digits hold all of them when they are long enough together. -/
theorem grouped_flatten (ds : List Char) (h : ds.length = 32) : (grouped ds).flatten = ds := by
  have hfold (lengths : List Nat) (done : List (List Char)) (rest : List Char) :
      let r := lengths.foldl (fun r n => (r.1 ++ [r.2.take n], r.2.drop n)) (done, rest)
      r.1.flatten ++ r.2 = done.flatten ++ rest ∧ r.2.length = rest.length - lengths.sum := by
    induction lengths generalizing done rest with
    | nil => exact ⟨rfl, rfl⟩
    | cons n lengths ih =>
      obtain ⟨hall, hleft⟩ := ih (done ++ [rest.take n]) (rest.drop n)
      refine ⟨hall.trans ?_, hleft.trans ?_⟩
      · rw [List.flatten_append, List.flatten_singleton, List.append_assoc, List.take_append_drop]
      · rw [List.length_drop, List.sum_cons, Nat.sub_sub]
  obtain ⟨hall, hleft⟩ := hfold groups [] ds
  -- the groups are 32 digits long, so nothing is left over
  have hnil : ∀ r : List (List Char) × List Char, r.2.length = ds.length - groups.sum →
      r.2 = [] := by
    intro r hr
    rw [h] at hr
    exact List.length_eq_zero_iff.mp hr
  rw [hnil _ hleft, List.append_nil] at hall
  exact hall

/-- Without its hyphens the canonical text is that of the digits. -/
theorem filter_hyphenated (ds : List Char) (h : ds.length = 32) (hplain : '-' ∉ ds) :
    (hyphenated ds).filter (· != '-') = ds := by
  have hjoin (pieces : List (List Char)) (hpieces : '-' ∉ pieces.flatten) :
      (['-'].intercalate pieces).filter (· != '-') = pieces.flatten := by
    induction pieces with
    | nil => rfl
    | cons piece pieces ih =>
      rw [List.flatten_cons, List.mem_append, not_or] at hpieces
      have hpiece : piece.filter (· != '-') = piece := by
        rw [List.filter_eq_self]
        intro c hc
        rw [bne_iff_ne]
        rintro rfl
        exact hpieces.1 hc
      cases pieces with
      | nil => simpa using hpiece
      | cons second pieces =>
        have hhyphen : ['-'].filter (· != '-') = [] := rfl
        rw [List.intercalate_cons_cons, List.filter_append, List.filter_append, hpiece, hhyphen,
          List.append_nil, ih hpieces.2, List.flatten_cons (l := piece)]
  unfold hyphenated
  rw [hjoin _ (by rw [grouped_flatten ds h]; exact hplain), grouped_flatten ds h]

theorem pointOf_injective (a b : String) (ha : IsId a) (hb : IsId b)
    (h : pointOf a = pointOf b) : a = b := by
  have hplain (id : String) (hid : IsId id) : '-' ∉ id.toList := by
    intro hmem
    exact absurd (hid.digits _ hmem) (by decide)
  have hlist : hyphenated a.toList = hyphenated b.toList := String.ofList_injective h
  apply String.toList_inj.mp
  calc a.toList = (hyphenated a.toList).filter (· != '-') :=
        (filter_hyphenated _ ha.length (hplain a ha)).symm
    _ = (hyphenated b.toList).filter (· != '-') := by rw [hlist]
    _ = b.toList := filter_hyphenated _ hb.length (hplain b hb)

end CodeIndex.Uuid
