import CodeIndex.Entity.Mint
import CodeIndex.Proofs.Digest.Fields
import Mathlib.Data.List.Nodup
import Std.Data.String.ToNat

/-!
Entities as they are minted. The bytes that an id is a digest of determine all that the id is made
of. As far as digests do not collide, then, the ids tell drafts of entities apart by their features,
and of the drafts with the same features the first is minted.
-/

namespace CodeIndex

theorem EntityKind.ofName?_name (k : EntityKind) : EntityKind.ofName? k.name = some k := by
  cases k <;> rfl

theorem EntityKind.name_injective {a b : EntityKind} (h : a.name = b.name) : a = b :=
  Option.some.inj ((ofName?_name a).symm.trans (h ▸ ofName?_name b))

theorem EntityKind.nul_notMem_name (k : EntityKind) : '\x00' ∉ k.name.toList := by
  cases k <;> decide

theorem ChunkVariant.ofName?_name (v : ChunkVariant) : ChunkVariant.ofName? v.name = some v := by
  cases v <;> rfl

theorem ChunkVariant.name_injective {a b : ChunkVariant} (h : a.name = b.name) : a = b :=
  Option.some.inj ((ofName?_name a).symm.trans (h ▸ ofName?_name b))

theorem ChunkVariant.nul_notMem_name (v : ChunkVariant) : '\x00' ∉ v.name.toList := by
  cases v <;> decide

/-- What the id of an entity is made of. -/
structure EntityIdentity where
  lineage : String
  kind : EntityKind
  name : String
  startLine : Nat
  variant : ChunkVariant
  hash : ContentHash

namespace EntityIdentity

def fields (i : EntityIdentity) : List String :=
  identityFields i.lineage i.kind i.name i.startLine i.variant i.hash

/-- The bytes that the id is a digest of. -/
def bytes (i : EntityIdentity) : List UInt8 := Digest.fieldBytes i.fields

/-- The id. -/
def id (i : EntityIdentity) : String :=
  entityId i.lineage i.kind i.name i.startLine i.variant i.hash

/-- No NUL stands in the lineage and in the hash. The name is any text. -/
structure NulFree (i : EntityIdentity) : Prop where
  lineage : '\x00' ∉ i.lineage.toList
  hash : '\x00' ∉ i.hash.toList

variable {i j : EntityIdentity}

/-- Behind the lineage, the name is what stands between the kind and the last three fields. -/
theorem tail_injective (hi : '\x00' ∉ i.hash.toList) (hj : '\x00' ∉ j.hash.toList)
    (h : Digest.fieldBytes i.fields.tail = Digest.fieldBytes j.fields.tail) :
    i.kind = j.kind ∧ i.name = j.name ∧ i.startLine = j.startLine ∧ i.variant = j.variant ∧
      i.hash = j.hash := by
  have hfront (k : EntityIdentity) : ∀ f ∈ [k.kind.name], '\x00' ∉ f.toList :=
    List.forall_mem_singleton.mpr k.kind.nul_notMem_name
  have hback (k : EntityIdentity) (hk : '\x00' ∉ k.hash.toList) :
      ∀ f ∈ [toString k.startLine, k.variant.name, k.hash], '\x00' ∉ f.toList := by
    simp only [List.forall_mem_cons]
    exact ⟨Text.nul_notMem_toString _, k.variant.nul_notMem_name, hk, List.forall_mem_nil _⟩
  obtain ⟨hkind, hname, hrest⟩ := Digest.fieldBytes_inj (hfront i) (hfront j) (hback i hi)
    (hback j hj) rfl rfl h
  simp only [List.cons.injEq, and_true] at hkind hrest
  obtain ⟨hline, hvariant, hhash⟩ := hrest
  exact ⟨EntityKind.name_injective hkind, hname, Nat.repr_injective hline,
    ChunkVariant.name_injective hvariant, hhash⟩

theorem bytes_injective (hi : i.NulFree) (hj : j.NulFree) (h : i.bytes = j.bytes) : i = j := by
  obtain ⟨hlineage, htail⟩ := Digest.fieldBytes_first hi.lineage hj.lineage h
  obtain ⟨hkind, hname, hline, hvariant, hhash⟩ := tail_injective hi.hash hj.hash htail
  obtain ⟨_, _, _, _, _, _⟩ := i
  obtain ⟨_, _, _, _, _, _⟩ := j
  dsimp only at hlineage hkind hname hline hvariant hhash
  rw [hlineage, hkind, hname, hline, hvariant, hhash]

/-- Of two identities with the same lineage, which may be any text, the same is left behind it. -/
theorem tail_of_bytes (hlineage : i.lineage = j.lineage) (h : i.bytes = j.bytes) :
    Digest.fieldBytes i.fields.tail = Digest.fieldBytes j.fields.tail := by
  have hbytes (k : EntityIdentity) :
      k.bytes = k.lineage.toUTF8.data.toList ++ 0 :: Digest.fieldBytes k.fields.tail :=
    Digest.fieldBytes_cons k.lineage k.fields.tail
  rw [hbytes i, hbytes j, hlineage] at h
  exact (List.cons.inj (List.append_cancel_left h)).2

end EntityIdentity

/-- A path can be read off the bytes that its lineage is a digest of. -/
theorem lineageBytes_injective {path path' : String}
    (h : Digest.fieldBytes (lineageFields path) = Digest.fieldBytes (lineageFields path')) :
    path = path' := by
  have hfirst : '\x00' ∉ "lineage".toList := by decide
  exact Digest.fieldBytes_single (Digest.fieldBytes_first hfirst hfirst h).2

section

variable {α β κ : Type} [DecidableEq κ]

/-- The members of a list whose key no member before them has, in order. -/
def firstsBy (key : α → κ) (xs : List α) : List α :=
  (xs.zipIdx.filter fun m => key m.1 ∉ (xs.take m.2).map key).map (·.1)

variable (key : α → κ)

theorem firstsBy_cons (x : α) (xs : List α) :
    firstsBy key (x :: xs) = x :: (firstsBy key xs).filter fun y => key y ≠ key x := by
  have hplace (m : α × Nat) :
      (key m.1 ∉ ((x :: xs).take (m.2 + 1)).map key) ↔
        key m.1 ≠ key x ∧ key m.1 ∉ (xs.take m.2).map key := by
    rw [List.take_succ_cons, List.map_cons, List.mem_cons, not_or]
  unfold firstsBy
  rw [List.zipIdx_cons, List.filter_cons_of_pos (by simp), List.map_cons, List.zipIdx_succ,
    List.filter_map, List.map_map, List.filter_map, List.filter_filter]
  -- the places of the rest are one further on, and what stands before them has one member more
  have hkept : ∀ m ∈ xs.zipIdx,
      decide (key m.1 ∉ ((x :: xs).take (m.2 + 1)).map key) =
        (decide (key m.1 ≠ key x) && decide (key m.1 ∉ (xs.take m.2).map key)) := by
    intro m _
    rw [← Bool.decide_and]
    exact decide_eq_decide.mpr (hplace m)
  exact congrArg (x :: ·) (congrArg (List.map _) (List.filter_congr hkept))

theorem firstsBy_sublist (xs : List α) : (firstsBy key xs).Sublist xs := by
  induction xs with
  | nil => exact List.Sublist.slnil
  | cons x xs ih =>
    rw [firstsBy_cons]
    exact (List.filter_sublist.trans ih).cons_cons x

theorem nodup_firstsBy (xs : List α) : ((firstsBy key xs).map key).Nodup := by
  induction xs with
  | nil => exact List.nodup_nil
  | cons x xs ih =>
    rw [firstsBy_cons, List.map_cons, List.nodup_cons]
    refine ⟨fun hmem => ?_, ih.sublist (List.filter_sublist.map key)⟩
    obtain ⟨y, hy, hkey⟩ := List.mem_map.mp hmem
    exact of_decide_eq_true (List.mem_filter.mp hy).2 hkey

theorem mem_keys_firstsBy (xs : List α) (k : κ) :
    k ∈ (firstsBy key xs).map key ↔ k ∈ xs.map key := by
  refine ⟨fun hmem => ((firstsBy_sublist key xs).map key).subset hmem, fun hmem => ?_⟩
  induction xs with
  | nil => exact hmem
  | cons x xs ih =>
    rw [firstsBy_cons, List.map_cons, List.mem_cons]
    by_cases hk : k = key x
    · exact .inl hk
    · have hrest : k ∈ xs.map key := (List.mem_cons.mp hmem).resolve_left hk
      obtain ⟨y, hy, rfl⟩ := List.mem_map.mp (ih hrest)
      exact .inr (List.mem_map_of_mem (List.mem_filter.mpr ⟨hy, decide_eq_true hk⟩))

/-- Keys that tell the same members apart choose the same ones. -/
theorem firstsBy_congr {κ' : Type} [DecidableEq κ'] (key' : α → κ') (xs : List α)
    (h : ∀ a ∈ xs, ∀ b ∈ xs, key a = key b ↔ key' a = key' b) :
    firstsBy key xs = firstsBy key' xs := by
  induction xs with
  | nil => rfl
  | cons x xs ih =>
    have hrest : ∀ a ∈ xs, ∀ b ∈ xs, key a = key b ↔ key' a = key' b := fun a ha b hb =>
      h a (List.mem_cons_of_mem _ ha) b (List.mem_cons_of_mem _ hb)
    rw [firstsBy_cons, firstsBy_cons, ih hrest]
    refine congrArg (x :: ·) (List.filter_congr fun y hy => ?_)
    have hmem : y ∈ xs := (firstsBy_sublist key' xs).subset hy
    have hsame := h y (List.mem_cons_of_mem _ hmem) x List.mem_cons_self
    exact decide_eq_decide.mpr (not_congr hsame)

theorem firstsBy_map (f : β → α) (xs : List β) :
    firstsBy key (xs.map f) = (firstsBy (fun x => key (f x)) xs).map f := by
  induction xs with
  | nil => rfl
  | cons x xs ih =>
    rw [List.map_cons, firstsBy_cons, ih, firstsBy_cons, List.map_cons, List.filter_map]
    rfl

end

/-- The entities that are kept are the first ones by their ids, less those whose ids were seen. -/
theorem keepFirst_eq (seen : List String) (entities : List Entity) :
    keepFirst seen entities = (firstsBy Entity.id entities).filter fun e => e.id ∉ seen := by
  induction entities generalizing seen with
  | nil => rfl
  | cons e es ih =>
    rw [keepFirst, firstsBy_cons]
    by_cases hseen : e.id ∈ seen
    · rw [if_pos (List.contains_iff_mem.mpr hseen), ih,
        List.filter_cons_of_neg (by simpa using hseen), List.filter_filter]
      refine List.filter_congr fun e' _ => ?_
      rw [← Bool.decide_and]
      exact decide_eq_decide.mpr ⟨fun h => ⟨h, fun hid => h (hid ▸ hseen)⟩, And.left⟩
    · rw [if_neg (by simpa using hseen), ih, List.filter_cons_of_pos (by simpa using hseen),
        List.filter_filter]
      refine congrArg (e :: ·) (List.filter_congr fun e' _ => ?_)
      rw [← Bool.decide_and]
      exact decide_eq_decide.mpr (by rw [List.mem_cons, not_or, and_comm])

/-- An item that can be stored: its name and its text do not consist of blanks, and its lines count
from one and do not run backwards. -/
structure ExtractedEntity.Valid (e : ExtractedEntity) : Prop where
  name : ∃ c ∈ e.name.toList, Text.isBlank c = false
  text : ∃ c ∈ e.text.toList, Text.isBlank c = false
  lines : 1 ≤ e.span.startLine ∧ e.span.startLine ≤ e.span.endLine

theorem Text.isAllBlank_eq_false (s : String) :
    isAllBlank s = false ↔ ∃ c ∈ s.toList, isBlank c = false := by
  unfold isAllBlank
  rw [List.all_eq_false]
  simp only [Bool.not_eq_true]

theorem ExtractedEntity.isMintable_iff (e : ExtractedEntity) : e.isMintable = true ↔ e.Valid := by
  unfold isMintable Span.isValid
  simp only [Bool.and_eq_true, Bool.not_eq_true', Text.isAllBlank_eq_false, decide_eq_true_eq]
  exact ⟨fun h => ⟨h.1.1, h.1.2, h.2⟩, fun h => ⟨⟨h.name, h.text⟩, h.lines⟩⟩

/-- An item in a variant that is asked for. -/
structure Draft where
  item : ExtractedEntity
  variant : ChunkVariant

namespace Draft

/-- The items that can be stored, in every variant, in order. -/
def ofItems (items : List ExtractedEntity) (variants : List ChunkVariant) : List Draft :=
  (items.filter (·.isMintable)).flatMap fun item => variants.map fun variant => ⟨item, variant⟩

/-- What sets a draft apart from the others of its file. -/
def features (d : Draft) : EntityKind × String × Nat × String × ChunkVariant :=
  (d.item.kind, d.item.name, d.item.span.startLine, d.item.text, d.variant)

def identity (lineage : String) (d : Draft) : EntityIdentity where
  lineage := lineage
  kind := d.item.kind
  name := d.item.name
  startLine := d.item.span.startLine
  variant := d.variant
  hash := Digest.textHash d.item.text

/-- The entity. -/
def mint (path lineage : String) (d : Draft) : Entity := d.item.mint path lineage d.variant

/-- The digests that the ids of some drafts rest on do not collide: those that are cut off to ids,
and the whole ones of the texts. -/
structure Apart (lineage : String) (drafts : List Draft) : Prop where
  ids : Digest.CollisionFree 32 (drafts.map fun d => (d.identity lineage).bytes)
  texts : Digest.CollisionFree 64 (drafts.map fun d => d.item.text.toUTF8.toList)

variable {lineage : String} {items : List ExtractedEntity} {variants : List ChunkVariant}

theorem mem_ofItems (d : Draft) :
    d ∈ ofItems items variants ↔ d.item ∈ items ∧ d.item.Valid ∧ d.variant ∈ variants := by
  unfold ofItems
  simp only [List.mem_flatMap, List.mem_filter, List.mem_map, ExtractedEntity.isMintable_iff]
  constructor
  · rintro ⟨item, ⟨hitem, hvalid⟩, variant, hvariant, rfl⟩
    exact ⟨hitem, hvalid, hvariant⟩
  · rintro ⟨hitem, hvalid, hvariant⟩
    exact ⟨d.item, ⟨hitem, hvalid⟩, d.variant, hvariant, rfl⟩

/-- Ids that do not collide tell drafts apart by their features. -/
theorem Apart.id_eq_iff {drafts : List Draft} (h : Apart lineage drafts) (a b : Draft)
    (ha : a ∈ drafts) (hb : b ∈ drafts) :
    (a.identity lineage).id = (b.identity lineage).id ↔ a.features = b.features := by
  constructor
  · intro hid
    have hcut : (Digest.hexDigest (a.identity lineage).bytes).toList.take 32 =
        (Digest.hexDigest (b.identity lineage).bytes).toList.take 32 := String.ofList_injective hid
    have hbytes := h.ids _ (List.mem_map_of_mem ha) _ (List.mem_map_of_mem hb) hcut
    have hlineage : (a.identity lineage).lineage = (b.identity lineage).lineage := rfl
    have htail := EntityIdentity.tail_of_bytes hlineage hbytes
    have hhex (d : Draft) : '\x00' ∉ (d.identity lineage).hash.toList :=
      Digest.nul_notMem_textHash d.item.text
    obtain ⟨hkind, hname, hline, hvariant, hhash⟩ :=
      EntityIdentity.tail_injective (hhex a) (hhex b) htail
    have htext : a.item.text = b.item.text := h.texts.textHash_inj ha hb hhash
    simp only [features, Prod.mk.injEq]
    exact ⟨hkind, hname, hline, htext, hvariant⟩
  · intro hfeatures
    simp only [features, Prod.mk.injEq] at hfeatures
    obtain ⟨hkind, hname, hline, htext, hvariant⟩ := hfeatures
    unfold identity
    rw [hkind, hname, hline, htext, hvariant]

end Draft

section

variable (path lineage : String) (items : List ExtractedEntity) (variants : List ChunkVariant)

theorem mintEntities_eq : mintEntities path lineage items variants =
    (firstsBy (fun d => (d.identity lineage).id) (Draft.ofItems items variants)).map
      (Draft.mint path lineage) := by
  have hdrafts : ((items.filter (·.isMintable)).flatMap fun item =>
      variants.map fun variant => item.mint path lineage variant) =
      (Draft.ofItems items variants).map (Draft.mint path lineage) := by
    unfold Draft.ofItems
    rw [List.map_flatMap]
    simp only [List.map_map]
    rfl
  have hall (entities : List Entity) : (entities.filter fun e => e.id ∉ ([] : List String)) =
      entities := List.filter_eq_self.mpr fun _ _ => rfl
  unfold mintEntities
  rw [hdrafts, keepFirst_eq, hall, firstsBy_map]
  rfl

theorem mintEntities_nodup : ((mintEntities path lineage items variants).map (·.id)).Nodup := by
  rw [mintEntities_eq, List.map_map]
  exact nodup_firstsBy (fun d : Draft => (d.identity lineage).id) _

theorem mem_minted (e : Entity) (h : e ∈ mintEntities path lineage items variants) :
    ∃ d ∈ Draft.ofItems items variants, e = d.mint path lineage := by
  rw [mintEntities_eq] at h
  obtain ⟨d, hd, rfl⟩ := List.mem_map.mp h
  exact ⟨d, (firstsBy_sublist _ _).subset hd, rfl⟩

theorem mem_mintEntities (e : Entity) (h : e ∈ mintEntities path lineage items variants) :
    ∃ item ∈ items, ∃ variant ∈ variants, e = item.mint path lineage variant := by
  obtain ⟨d, hd, rfl⟩ := mem_minted path lineage items variants e h
  obtain ⟨hitem, _, hvariant⟩ := (Draft.mem_ofItems d).mp hd
  exact ⟨d.item, hitem, d.variant, hvariant, rfl⟩

theorem mintEntities_path (e : Entity) (h : e ∈ mintEntities path lineage items variants) :
    e.filePath = path := by
  obtain ⟨_, _, _, _, rfl⟩ := mem_mintEntities path lineage items variants e h
  rfl

end

/-- The bytes behind an id determine what it is made of, and those behind a lineage the path. The
entities of a file have different ids, and as far as digests do not collide they are minted from the
first of the drafts with the same features, one for all the features that a valid item has in a
variant, in the order of the drafts. -/
theorem identities_separate :
    (∀ i j : EntityIdentity, i.NulFree → j.NulFree → i.bytes = j.bytes → i = j) ∧
    (∀ path path',
      Digest.fieldBytes (lineageFields path) = Digest.fieldBytes (lineageFields path') →
      path = path') ∧
    ∀ path lineage items variants,
      ((mintEntities path lineage items variants).map (·.id)).Nodup ∧
      (Draft.Apart lineage (Draft.ofItems items variants) →
        ∃ kept, kept = firstsBy Draft.features (Draft.ofItems items variants) ∧
          mintEntities path lineage items variants = kept.map (Draft.mint path lineage) ∧
          (kept.map Draft.features).Nodup ∧
          (∀ d ∈ kept, d.item ∈ items ∧ d.item.Valid ∧ d.variant ∈ variants) ∧
          ∀ item ∈ items, item.Valid → ∀ variant ∈ variants,
            (Draft.mk item variant).features ∈ kept.map Draft.features) := by
  refine ⟨fun i j => EntityIdentity.bytes_injective, fun _ _ => lineageBytes_injective,
    fun path lineage items variants => ⟨mintEntities_nodup path lineage items variants,
      fun hapart => ⟨_, rfl, ?_, nodup_firstsBy _ _, fun d hd => ?_, ?_⟩⟩⟩
  · -- the first drafts by their ids are the first by their features
    have hfirsts := firstsBy_congr (fun d => (d.identity lineage).id) Draft.features
      (Draft.ofItems items variants) fun a ha b hb => hapart.id_eq_iff a b ha hb
    rw [mintEntities_eq, hfirsts]
  · exact (Draft.mem_ofItems d).mp ((firstsBy_sublist _ _).subset hd)
  · intro item hitem hvalid variant hvariant
    have hdraft : Draft.mk item variant ∈ Draft.ofItems items variants :=
      (Draft.mem_ofItems _).mpr ⟨hitem, hvalid, hvariant⟩
    exact (mem_keys_firstsBy _ _ _).mpr (List.mem_map_of_mem hdraft)

def reportedFunction (name : String) (scope : Option String) : ExtractedEntity where
  kind := .function
  name := name
  span := ⟨1, 1⟩
  signature := none
  scope := scope
  text := "def f(): pass"

def twiceReported : List ExtractedEntity :=
  [reportedFunction "f" none, reportedFunction " " none, reportedFunction "f" (some "class A")]

/-- The drafts of the function in its two variants, for either report. -/
theorem mem_twiceReported (d : Draft) (h : d ∈ Draft.ofItems twiceReported [.metadata, .full]) :
    ∃ scope, d.item = reportedFunction "f" scope := by
  have hdrafts : Draft.ofItems twiceReported [.metadata, .full] =
      [⟨reportedFunction "f" none, .metadata⟩, ⟨reportedFunction "f" none, .full⟩,
        ⟨reportedFunction "f" (some "class A"), .metadata⟩,
        ⟨reportedFunction "f" (some "class A"), .full⟩] := rfl
  rw [hdrafts] at h
  simp only [List.mem_cons, List.not_mem_nil, or_false] at h
  rcases h with rfl | rfl | rfl | rfl
  · exact ⟨none, rfl⟩
  · exact ⟨none, rfl⟩
  · exact ⟨some "class A", rfl⟩
  · exact ⟨some "class A", rfl⟩

theorem twiceReported_ids :
    (Draft.identity "lin" ⟨reportedFunction "f" none, .metadata⟩).id ≠
      (Draft.identity "lin" ⟨reportedFunction "f" none, .full⟩).id := by
  decide +kernel

theorem twiceReported_apart :
    Draft.Apart "lin" (Draft.ofItems twiceReported [.metadata, .full]) where
  ids := by
    intro x hx y hy hcut
    obtain ⟨⟨_, v⟩, hd, rfl⟩ := List.mem_map.mp hx
    obtain ⟨⟨_, v'⟩, hd', rfl⟩ := List.mem_map.mp hy
    -- the scope is no part of an identity, so that there is one identity for each variant
    obtain ⟨scope, rfl⟩ := mem_twiceReported _ hd
    obtain ⟨scope', rfl⟩ := mem_twiceReported _ hd'
    have hid := congrArg String.ofList hcut
    cases v with
    | metadata =>
      cases v' with
      | metadata => rfl
      | full => exact absurd hid twiceReported_ids
    | full =>
      cases v' with
      | metadata => exact absurd hid.symm twiceReported_ids
      | full => rfl
  texts := by
    intro x hx y hy _
    obtain ⟨d, hd, rfl⟩ := List.mem_map.mp hx
    obtain ⟨d', hd', rfl⟩ := List.mem_map.mp hy
    obtain ⟨_, hitem⟩ := mem_twiceReported d hd
    obtain ⟨_, hitem'⟩ := mem_twiceReported d' hd'
    rw [hitem, hitem']
    rfl

def namedIdentity (name : String) : EntityIdentity where
  lineage := "lin"
  kind := .function
  name := name
  startLine := 1
  variant := .full
  hash := "00"

/-- The first report is minted, in both variants. A name that goes on like the fields behind it, and
a path that ends like a field, have bytes of their own. -/
theorem twiceReported_separate :
    Draft.Apart "lin" (Draft.ofItems twiceReported [.metadata, .full]) ∧
    mintEntities "a.py" "lin" twiceReported [.metadata, .full] =
      [(reportedFunction "f" none).mint "a.py" "lin" .metadata,
        (reportedFunction "f" none).mint "a.py" "lin" .full] ∧
    ((namedIdentity "f").NulFree ∧ (namedIdentity "f\x001\x00full").NulFree ∧
      (namedIdentity "f").bytes ≠ (namedIdentity "f\x001\x00full").bytes) ∧
    Digest.fieldBytes (lineageFields "a.py") ≠ Digest.fieldBytes (lineageFields "a.py\x00") := by
  obtain ⟨hidentities, hpaths, hminting⟩ := identities_separate
  obtain ⟨_, hkept⟩ := hminting "a.py" "lin" twiceReported [.metadata, .full]
  obtain ⟨_, rfl, hminted, _, _, _⟩ := hkept twiceReported_apart
  have hfree (name : String) : (namedIdentity name).NulFree :=
    ⟨show '\x00' ∉ "lin".toList by decide, show '\x00' ∉ "00".toList by decide⟩
  refine ⟨twiceReported_apart, hminted, ⟨hfree _, hfree _, fun hbytes => ?_⟩, fun hbytes => ?_⟩
  · have hnames := congrArg EntityIdentity.name (hidentities _ _ (hfree _) (hfree _) hbytes)
    exact absurd hnames (by decide)
  · exact absurd (hpaths _ _ hbytes) (by decide)

end CodeIndex
