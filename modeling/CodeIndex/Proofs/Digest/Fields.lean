import CodeIndex.Digest.Fingerprint
import CodeIndex.Proofs.Text.Utf8
import Mathlib.Data.List.Induction

/-!
The bytes of a sequence of fields. A zero byte ends every field and no lengths are written, so the
bytes are taken apart from both ends: the fields of the front up to a field that may hold zero bytes
itself, and those behind it from the back.
-/

namespace CodeIndex.Digest

theorem fieldBytes_cons (field : String) (fields : List String) :
    fieldBytes (field :: fields) = field.toUTF8.data.toList ++ 0 :: fieldBytes fields := by
  unfold fieldBytes
  rw [List.flatMap_cons, Text.byteList, List.append_assoc, List.singleton_append]

/-- With a zero byte in front of all fields the bytes have one ahead of each field, and one left
at the end. -/
theorem zero_fieldBytes (fields : List String) :
    0 :: fieldBytes fields =
      fields.flatMap (fun field => 0 :: field.toUTF8.data.toList) ++ [0] := by
  induction fields with
  | nil => rfl
  | cons field fields ih =>
    rw [fieldBytes_cons, ih, List.flatMap_cons, List.cons_append, List.cons_append,
      List.append_assoc]

section

variable {xs ys s t : List UInt8}

/-- What stands before the first zero byte, and what follows it. -/
theorem append_zero_inj (hx : 0 ∉ xs) (hy : 0 ∉ ys) (h : xs ++ 0 :: s = ys ++ 0 :: t) :
    xs = ys ∧ s = t := by
  -- whatever the longer front has more begins with the zero byte that ends the shorter one
  have hnone {short long more s t : List UInt8} (hlong : 0 ∉ long) (hfront : long = short ++ more)
      (hrest : 0 :: s = more ++ 0 :: t) : short = long ∧ s = t := by
    cases more with
    | nil =>
      have hsame : long = short := by rw [hfront, List.append_nil]
      exact ⟨hsame.symm, (List.cons.inj hrest).2⟩
    | cons b more =>
      have hzero : 0 = b := (List.cons.inj hrest).1
      have hmem : 0 ∈ long := by
        rw [hfront, hzero]
        exact List.mem_append_right _ List.mem_cons_self
      exact absurd hmem hlong
  rcases List.append_eq_append_iff.mp h with ⟨more, hfront, hrest⟩ | ⟨more, hfront, hrest⟩
  · exact hnone hy hfront hrest
  · obtain ⟨hsame, hafter⟩ := hnone hx hfront hrest
    exact ⟨hsame.symm, hafter.symm⟩

/-- What follows the last zero byte, and what stands before it. -/
theorem zero_append_inj (hx : 0 ∉ xs) (hy : 0 ∉ ys) (h : s ++ 0 :: xs = t ++ 0 :: ys) :
    s = t ∧ xs = ys := by
  have hreverse : xs.reverse ++ 0 :: s.reverse = ys.reverse ++ 0 :: t.reverse := by
    have hboth := congrArg List.reverse h
    simpa only [List.reverse_append, List.reverse_cons, List.append_assoc,
      List.singleton_append] using hboth
  obtain ⟨hback, hfront⟩ := append_zero_inj (by simpa using hx) (by simpa using hy) hreverse
  exact ⟨List.reverse_inj.mp hfront, List.reverse_inj.mp hback⟩

end

section

variable {field field' : String} {rest rest' front front' back back' : List String}

/-- A single field is what its bytes are, also where it holds zero bytes. -/
theorem fieldBytes_single (h : fieldBytes [field] = fieldBytes [field']) : field = field' := by
  rw [fieldBytes_cons, fieldBytes_cons] at h
  exact Text.toUTF8_injective (List.append_cancel_right h)

theorem fieldBytes_first (hfield : '\x00' ∉ field.toList) (hfield' : '\x00' ∉ field'.toList)
    (h : fieldBytes (field :: rest) = fieldBytes (field' :: rest')) :
    field = field' ∧ fieldBytes rest = fieldBytes rest' := by
  rw [fieldBytes_cons, fieldBytes_cons] at h
  obtain ⟨hbytes, hrest⟩ := append_zero_inj (Text.zero_notMem_toUTF8 field hfield)
    (Text.zero_notMem_toUTF8 field' hfield') h
  exact ⟨Text.toUTF8_injective hbytes, hrest⟩

theorem fieldBytes_last (hfield : '\x00' ∉ field.toList) (hfield' : '\x00' ∉ field'.toList)
    (h : fieldBytes (rest ++ [field]) = fieldBytes (rest' ++ [field'])) :
    fieldBytes rest = fieldBytes rest' ∧ field = field' := by
  -- read with the zero bytes ahead of the fields, so that the last field has one before it too
  have hled := congrArg (0 :: ·) h
  simp only [zero_fieldBytes, List.flatMap_append, List.flatMap_singleton] at hled
  obtain ⟨hfront, hbytes⟩ := zero_append_inj (Text.zero_notMem_toUTF8 field hfield)
    (Text.zero_notMem_toUTF8 field' hfield') (List.append_cancel_right hled)
  have hrest : 0 :: fieldBytes rest = 0 :: fieldBytes rest' := by
    rw [zero_fieldBytes, zero_fieldBytes, hfront]
  exact ⟨(List.cons.inj hrest).2, Text.toUTF8_injective hbytes⟩

/-- As many fields without zero bytes in front of others are read off first. -/
theorem fieldBytes_front (hfront : ∀ f ∈ front, '\x00' ∉ f.toList)
    (hfront' : ∀ f ∈ front', '\x00' ∉ f.toList) (hlength : front.length = front'.length)
    (h : fieldBytes (front ++ rest) = fieldBytes (front' ++ rest')) :
    front = front' ∧ fieldBytes rest = fieldBytes rest' := by
  induction front generalizing front' with
  | nil =>
    obtain rfl := List.length_eq_zero_iff.mp hlength.symm
    exact ⟨rfl, h⟩
  | cons first front ih =>
    cases front' with
    | nil => exact absurd hlength (Nat.succ_ne_zero _)
    | cons first' front' =>
      obtain ⟨hfirst, hmore⟩ := List.forall_mem_cons.mp hfront
      obtain ⟨hfirst', hmore'⟩ := List.forall_mem_cons.mp hfront'
      obtain ⟨rfl, hbytes⟩ := fieldBytes_first hfirst hfirst' h
      obtain ⟨rfl, hrest⟩ := ih hmore hmore' (Nat.succ.inj hlength) hbytes
      exact ⟨rfl, hrest⟩

/-- As many fields without zero bytes behind others are read off from the back. -/
theorem fieldBytes_back (hback : ∀ f ∈ back, '\x00' ∉ f.toList)
    (hback' : ∀ f ∈ back', '\x00' ∉ f.toList) (hlength : back.length = back'.length)
    (h : fieldBytes (rest ++ back) = fieldBytes (rest' ++ back')) :
    fieldBytes rest = fieldBytes rest' ∧ back = back' := by
  induction back using List.reverseRecOn generalizing back' with
  | nil =>
    obtain rfl := List.length_eq_zero_iff.mp hlength.symm
    rw [List.append_nil, List.append_nil] at h
    exact ⟨h, rfl⟩
  | append_singleton back last ih =>
    cases back' using List.reverseRecOn with
    | nil => simp at hlength
    | append_singleton back' last' =>
      obtain ⟨hmore, hlast⟩ := List.forall_mem_append.mp hback
      obtain ⟨hmore', hlast'⟩ := List.forall_mem_append.mp hback'
      rw [← List.append_assoc, ← List.append_assoc] at h
      obtain ⟨hbytes, rfl⟩ := fieldBytes_last (hlast last List.mem_cons_self)
        (hlast' last' List.mem_cons_self) h
      obtain ⟨hrest, rfl⟩ := ih hmore hmore' (by simpa using hlength) hbytes
      exact ⟨hrest, rfl⟩

/-- Fields are determined by their bytes where one of them at most, at a known place, holds zero
bytes. -/
theorem fieldBytes_inj (hfront : ∀ f ∈ front, '\x00' ∉ f.toList)
    (hfront' : ∀ f ∈ front', '\x00' ∉ f.toList) (hback : ∀ f ∈ back, '\x00' ∉ f.toList)
    (hback' : ∀ f ∈ back', '\x00' ∉ f.toList) (hbefore : front.length = front'.length)
    (hbehind : back.length = back'.length)
    (h : fieldBytes (front ++ field :: back) = fieldBytes (front' ++ field' :: back')) :
    front = front' ∧ field = field' ∧ back = back' := by
  obtain ⟨hsame, hrest⟩ := fieldBytes_front hfront hfront' hbefore h
  have hrest : fieldBytes ([field] ++ back) = fieldBytes ([field'] ++ back') := hrest
  obtain ⟨hfield, hsame'⟩ := fieldBytes_back hback hback' hbehind hrest
  exact ⟨hsame, fieldBytes_single hfield, hsame'⟩

end

theorem nul_notMem_hexDigest (bytes : List UInt8) : '\x00' ∉ (hexDigest bytes).toList := by
  have hdigit : ∀ n < 16, Text.hexDigit n ≠ '\x00' := by decide
  unfold hexDigest Text.hexBytes
  rw [String.toList_ofList, List.mem_flatMap]
  rintro ⟨b, _, hb⟩
  have hlt : b.toNat < 256 := b.toNat_lt
  simp only [List.mem_cons, List.not_mem_nil, or_false] at hb
  rcases hb with hb | hb
  · exact hdigit _ (by omega) hb.symm
  · exact hdigit _ (by omega) hb.symm

theorem nul_notMem_textHash (text : String) : '\x00' ∉ (textHash text).toList :=
  nul_notMem_hexDigest _

/-- The digests of some byte strings, cut off after `width` digits, do not collide. -/
def CollisionFree (width : Nat) (inputs : List (List UInt8)) : Prop :=
  ∀ a ∈ inputs, ∀ b ∈ inputs,
    (hexDigest a).toList.take width = (hexDigest b).toList.take width → a = b

/-- Texts whose whole digests do not collide are told by their hashes. -/
theorem CollisionFree.textHash_inj {α : Type} {width : Nat} {xs : List α} {text : α → String}
    (h : CollisionFree width (xs.map fun x => (text x).toUTF8.toList)) {a b : α} (ha : a ∈ xs)
    (hb : b ∈ xs) (hhash : textHash (text a) = textHash (text b)) : text a = text b := by
  have hcut := congrArg (fun hash => hash.toList.take width) hhash
  have hbytes := h _ (List.mem_map_of_mem ha) _ (List.mem_map_of_mem hb) hcut
  rw [Text.byteList, Text.byteList] at hbytes
  exact Text.toUTF8_injective hbytes

end CodeIndex.Digest
